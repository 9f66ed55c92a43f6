import Sponge.EventLoop.Passes

/-!
# The calls of a turn

Which rules a call of `wait_next_event` calls, and in which worlds.  What it
throws is what the last of these calls throws, unless `poll` has reported an
error; and every world in which a rule is called is one that the reactor
reaches.
-/

namespace Sponge
namespace EventLoop

open Support

section Definitions

variable {ι W : Type*} (rule : ι → Rule W)

/-- The calls of the second loop: each rule that is called, with the world in
which it is.  After a call that throws there is no other. -/
def serveCalls : List (ι × Option Direction) → List Revents → W → List (ι × W)
  | [], _, _ => []
  | (i, events) :: polled, revents, w =>
      let this := revents.headD {}
      if this.pollErr ∨ this.pollNval then []
      else
        let pollReady := events.any this.has
        if this.pollHup ∧ events.isSome ∧ ¬pollReady then
          serveCalls polled revents.tail ((rule i).cancel w)
        else if pollReady then
          match (rule i).call w with
          | (_, .error _) => [(i, w)]
          | (w', .ok ()) => (i, w) :: serveCalls polled revents.tail w'
        else serveCalls polled revents.tail w

/-- The calls of `wait_next_event`. -/
def calls (rules : List ι) (answer : PollAnswer) (w : W) : List (ι × W) :=
  let (w, polled) := setUp rule rules w
  if polled.all (·.2.isNone) then []
  else
    match answer with
    | .timeout | .interrupted => []
    | _ => serveCalls rule polled answer.revents w

end Definitions

/-- `poll` reports an error for some descriptor. -/
def ReportsError (revents : List Revents) : Prop :=
  ∃ this ∈ revents, this.pollErr = true ∨ this.pollNval = true

theorem reportsError_head {revents : List Revents}
    (h : (revents.headD {}).pollErr = true ∨
      (revents.headD {}).pollNval = true) : ReportsError revents := by
  cases revents with
  | nil => rcases h with h | h <;> cases h
  | cons this revents => exact ⟨this, List.mem_cons_self, h⟩

theorem ReportsError.of_tail {revents : List Revents}
    (h : ReportsError revents.tail) : ReportsError revents := by
  obtain ⟨this, hmem, hthis⟩ := h
  exact ⟨this, List.mem_of_mem_tail hmem, hthis⟩

variable {ι W : Type*} {rule : ι → Rule W}

/-! ## Exceptions -/

section Exceptions

variable {e : Failure}

theorem error_of_map {α β : Type*} {f : α → β} {x : Except Failure α}
    (h : x.map f = .error e) : x = .error e := by
  cases x with
  | error e' =>
      cases h
      rfl
  | ok a => cases h

theorem serve_error {polled : List (ι × Option Direction)}
    {revents : List Revents} {w : W}
    (h : (serve rule polled revents w).2 = .error e) :
    (e = pollFailure ∧ ReportsError revents) ∨
      ∃ call, (serveCalls rule polled revents w).getLast? = some call ∧
        ((rule call.1).call call.2).2 = .error e := by
  induction polled generalizing revents w with
  | nil => cases h
  | cons entry polled ih =>
      obtain ⟨i, events⟩ := entry
      have hrest : ∀ {w' : W}, (serve rule polled revents.tail w').2 = .error e →
          (e = pollFailure ∧ ReportsError revents) ∨
            ∃ call, (serveCalls rule polled revents.tail w').getLast? =
                some call ∧ ((rule call.1).call call.2).2 = .error e :=
        fun herror => (ih herror).imp_left fun hpoll =>
          ⟨hpoll.1, hpoll.2.of_tail⟩
      unfold serve at h
      unfold serveCalls
      dsimp only at h ⊢
      split at h
      · rename_i herror
        cases h
        exact Or.inl ⟨rfl, reportsError_head herror⟩
      rename_i herror
      rw [if_neg herror]
      split at h
      · rename_i hhup
        rw [if_pos hhup]
        exact hrest h
      rename_i hhup
      rw [if_neg hhup]
      by_cases hready : events.any (revents.headD {}).has = true
      · rw [if_pos hready] at h ⊢
        rcases hcall : (rule i).call w with ⟨w', e' | ⟨⟩⟩
        · rw [hcall] at h
          cases h
          exact Or.inr ⟨(i, w), rfl, congrArg Prod.snd hcall⟩
        · rw [hcall] at h
          refine (hrest (error_of_map h)).imp_right ?_
          rintro ⟨call, hlast, hthrows⟩
          refine ⟨call, ?_, hthrows⟩
          simp only [List.getLast?_cons, hlast, Option.getD_some]
      · rw [if_neg hready] at h ⊢
        exact hrest (error_of_map h)

/-- What `wait_next_event` throws was reported by `poll`, or is what its last
call throws. -/
theorem waitNextEvent_error {rules : List ι} {answer : PollAnswer} {w : W}
    (h : (waitNextEvent rule rules answer w).2 = .error e) :
    (e = pollFailure ∧ ReportsError answer.revents) ∨
      ∃ call, (calls rule rules answer w).getLast? = some call ∧
        ((rule call.1).call call.2).2 = .error e := by
  unfold waitNextEvent at h
  unfold calls
  dsimp only at h ⊢
  split at h
  · cases h
  rename_i hpolled
  rw [if_neg hpolled]
  cases answer with
  | timeout => cases h
  | interrupted => cases h
  | failed => exact serve_error (error_of_map h)
  | ready revents => exact serve_error (error_of_map h)

/-- A loop whose rules serve their descriptors is ended by `poll` or by what a
callback throws. -/
theorem Loop.ended_error (hserves : ∀ i, (rule i).Serves) {rules : List ι}
    {w : W} {answers : List PollAnswer}
    (h : (answers.foldl (Loop.step rule) ⟨rules, w, none⟩).ended =
      some (.error e)) :
    e = pollFailure ∨ ∃ i w', ((rule i).callback w').2 = .error e := by
  refine foldl_invariant (I := fun l : Loop ι W => l.ended = some (.error e) →
    e = pollFailure ∨ ∃ i w', ((rule i).callback w').2 = .error e)
    ?_ answers ?_ h
  · intro l answer hold hended
    unfold Loop.step at hended
    split at hended
    · exact hold hended
    split at hended
    · rename_i w' e' hwait
      cases hended
      rcases waitNextEvent_error (congrArg Prod.snd hwait) with
        ⟨hpoll, -⟩ | ⟨⟨i, w''⟩, -, hcall⟩
      · exact Or.inl hpoll
      · exact Or.inr ⟨i, w'', (hserves i).call_error hcall⟩
    · split at hended <;> cases hended
  · intro hended
    cases hended

end Exceptions

/-! ## The worlds of the calls -/

variable {H : ι → Prop}

/-- The reactor reaches the world of each call of the second loop. -/
theorem exists_reaches_serveCalls {polled : List (ι × Option Direction)}
    (hnodup : (polled.map Prod.fst).Nodup) {s : Reactor.State ι W}
    (hinstalled : ∀ entry ∈ polled, entry.1 ∈ s.installed)
    (harmed : ∀ i d, (i, some d) ∈ polled → i ∈ s.armed)
    {revents : List Revents} (hH : ∀ i, HangsUp polled revents i → H i)
    {call : ι × W} (hmem : call ∈ serveCalls rule polled revents s.world) :
    ∃ s', Reactor.Reaches (reactor rule) H s s' ∧ s'.world = call.2 := by
  induction polled generalizing s revents with
  | nil => cases hmem
  | cons entry polled ih =>
      obtain ⟨i, events⟩ := entry
      rw [List.map_cons, List.nodup_cons] at hnodup
      have hi := hinstalled (i, events) List.mem_cons_self
      have hne : ∀ entry ∈ polled, entry.1 ≠ i := by
        intro entry hentry heq
        exact hnodup.1 (List.mem_map.mpr ⟨entry, hentry, heq⟩)
      -- after a step that leaves the later rules as they are
      have hlater : ∀ s' : Reactor.State ι W,
          Reactor.Reaches (reactor rule) H s s' →
          (∀ j, j ≠ i → j ∈ s.installed → j ∈ s'.installed) →
          (∀ j, j ≠ i → j ∈ s.armed → j ∈ s'.armed) →
          call ∈ serveCalls rule polled revents.tail s'.world →
          ∃ s'', Reactor.Reaches (reactor rule) H s s'' ∧
            s''.world = call.2 := by
        intro s' hreaches hins harm hcall
        obtain ⟨s'', hreaches', hworld⟩ := @ih hnodup.2 s'
          (fun entry hentry => hins _ (hne entry hentry)
            (hinstalled entry (List.mem_cons_of_mem _ hentry)))
          (fun j d hentry => harm j (hne _ hentry)
            (harmed j d (List.mem_cons_of_mem _ hentry)))
          revents.tail (fun j hj => hH j hj.tail) hcall
        exact ⟨s'', hreaches.trans hreaches', hworld⟩
      unfold serveCalls at hmem
      dsimp only at hmem
      split at hmem
      · cases hmem
      split at hmem
      · rename_i hhup
        obtain ⟨hhup, hsome, hready⟩ := hhup
        obtain ⟨d, rfl⟩ := Option.isSome_iff_exists.mp hsome
        have hhangs := hH i
          (hangsUp_head hhup (Bool.eq_false_of_not_eq_true hready))
        refine hlater _ (Relation.ReflTransGen.single (Reactor.Step.hangUp hi
          (harmed i d List.mem_cons_self) hhangs)) ?_ ?_ hmem
        · exact fun j hj hins => ⟨hins, hj⟩
        · exact fun j hj harm => ⟨harm, hj⟩
      split at hmem
      · rename_i hready
        obtain ⟨d, rfl⟩ : ∃ d, events = some d := by
          cases events with
          | none => cases hready
          | some d => exact ⟨d, rfl⟩
        have hcalls : Reactor.Step (reactor rule) H s
            ⟨s.installed, s.armed \ {i}, ((rule i).call s.world).1⟩ := by
          rw [Rule.fst_call]
          exact Reactor.Step.call hi (harmed i d List.mem_cons_self)
        rcases hresult : (rule i).call s.world with ⟨w', e | ⟨⟩⟩
        · rw [hresult] at hmem
          rw [List.mem_singleton.mp hmem]
          exact ⟨s, Relation.ReflTransGen.refl, rfl⟩
        · rw [hresult] at hmem hcalls
          rcases List.mem_cons.mp hmem with rfl | hrest
          · exact ⟨s, Relation.ReflTransGen.refl, rfl⟩
          · refine hlater _ (Relation.ReflTransGen.single hcalls) ?_ ?_ hrest
            · exact fun j _ hins => hins
            · exact fun j hj harm => ⟨harm, hj⟩
      · exact hlater s Relation.ReflTransGen.refl (fun _ _ hins => hins)
          (fun _ _ harm => harm) hmem

/-- The invariant rule for the calls: the invariant holds whenever a rule is
called. -/
theorem calls_invariant {I : Set ι → W → Prop} {A : ι → W → Prop}
    (h : Reactor.Invariant (reactor rule) H I A) {rules : List ι}
    (hnodup : rules.Nodup) {answer : PollAnswer} {w : W}
    (hstart : I {i | i ∈ rules} w)
    (hH : ∀ i, HangsUp (setUp rule rules w).2 answer.revents i → H i)
    {call : ι × W} (hmem : call ∈ calls rule rules answer w) :
    ∃ installed, I installed call.2 := by
  obtain ⟨armed, hfirst, -, harmed⟩ :=
    @exists_reaches_setUp _ _ rule H [] rules hnodup ∅ w
  rw [List.nil_append, List.nil_append] at hfirst
  have hserved : call ∈ serveCalls rule (setUp rule rules w).2 answer.revents
      (setUp rule rules w).1 := by
    unfold calls at hmem
    dsimp only at hmem
    split at hmem
    · cases hmem
    cases answer with
    | timeout => cases hmem
    | interrupted => cases hmem
    | failed => exact hmem
    | ready revents => exact hmem
  obtain ⟨s, hsecond, hworld⟩ := exists_reaches_serveCalls
    (hnodup.sublist (setUp_sublist rule rules w))
    (s := ⟨{i | i ∈ (setUp rule rules w).2.map Prod.fst}, armed,
      (setUp rule rules w).1⟩)
    (fun entry hentry => List.mem_map.mpr ⟨entry, hentry, rfl⟩)
    harmed hH hserved
  refine ⟨s.installed, ?_⟩
  rw [← hworld]
  exact (h.reaches (hfirst.trans hsecond) (holds_resting hstart)).1

end EventLoop
end Sponge
