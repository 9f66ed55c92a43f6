import Mathlib.Data.List.Nodup
import Sponge.EventLoop.Model
import Sponge.Support.Reactor
import Sponge.Support.Runs

/-!
# The event loop as a reactor

A call of `wait_next_event` goes through the rules twice.  What it does is a
path of the reactor that its rules make up: rules are cancelled and armed in the
first loop, and called in the second one, when what armed them may have changed.
Whatever is shown of the reactor therefore holds in every run of the loop, for
all answers of `poll`.
-/

namespace Sponge
namespace EventLoop

open Support

variable {ι W : Type*}

def reactor (rule : ι → Rule W) : Reactor ι W where
  expired i w := (rule i).expired w = true
  interest i w := (rule i).interest w = true
  callback i w := ((rule i).callback w).1
  cancel i w := (rule i).cancel w

/-- The reactor between two calls. -/
def resting (rules : List ι) (w : W) : Reactor.State ι W :=
  ⟨{i | i ∈ rules}, ∅, w⟩

/-- The rule is cancelled because its descriptor hung up. -/
def HangsUp (polled : List (ι × Option Direction)) (revents : List Revents)
    (i : ι) : Prop :=
  ∃ entry ∈ polled.zip revents, entry.1.1 = i ∧ entry.2.pollHup = true ∧
    entry.1.2.any entry.2.has = false

variable {rule : ι → Rule W} {H : ι → Prop}

/-- Without the first of the remaining rules. -/
theorem setOf_mem_diff {done rules : List ι} {i : ι}
    (h : (done ++ i :: rules).Nodup) :
    {j | j ∈ done ++ i :: rules} \ {i} = {j | j ∈ done ++ rules} := by
  have hi : i ∉ done ++ rules := by
    rw [List.nodup_middle] at h
    exact (List.nodup_cons.mp h).1
  ext j
  simp only [Set.mem_sdiff, Set.mem_ofPred_eq, Set.mem_singleton_iff]
  constructor
  · rintro ⟨hj, hne⟩
    simpa [hne] using hj
  · intro hj
    refine ⟨by simp only [List.mem_append, List.mem_cons] at hj ⊢; tauto, ?_⟩
    rintro rfl
    exact hi hj

theorem nodup_of_cons {done rules : List ι} {i : ι}
    (h : (done ++ i :: rules).Nodup) : (done ++ rules).Nodup := by
  rw [List.nodup_middle] at h
  exact (List.nodup_cons.mp h).2

/-! ## The first loop -/

theorem setUp_sublist (rule : ι → Rule W) (rules : List ι) (w : W) :
    ((setUp rule rules w).2.map Prod.fst).Sublist rules := by
  induction rules generalizing w with
  | nil => exact List.Sublist.refl _
  | cons i rules ih =>
      unfold setUp
      split
      · exact (ih _).cons i
      · exact (ih w).cons_cons i

/-- The rules before `rules` have been set up already, and stay armed. -/
theorem exists_reaches_setUp {done rules : List ι}
    (hnodup : (done ++ rules).Nodup) (armed : Set ι) (w : W) :
    ∃ armed' : Set ι,
      Reactor.Reaches (reactor rule) H ⟨{i | i ∈ done ++ rules}, armed, w⟩
          ⟨{i | i ∈ done ++ (setUp rule rules w).2.map Prod.fst}, armed',
            (setUp rule rules w).1⟩ ∧
        (∀ i ∈ done, i ∈ armed → i ∈ armed') ∧
        ∀ i d, (i, some d) ∈ (setUp rule rules w).2 → i ∈ armed' := by
  induction rules generalizing done armed w with
  | nil =>
      refine ⟨armed, Relation.ReflTransGen.refl, fun _ _ h => h, ?_⟩
      intro i d hmem
      cases hmem
  | cons i rules ih =>
      have hi : i ∉ done := by
        rw [List.nodup_middle] at hnodup
        intro hmem
        exact (List.nodup_cons.mp hnodup).1 (List.mem_append_left _ hmem)
      have hinstalled : i ∈ {j | j ∈ done ++ i :: rules} := by simp
      unfold setUp
      by_cases hexpired : (rule i).expired w = true
      · rw [if_pos hexpired]
        obtain ⟨armed', hreaches, hkept, hnew⟩ :=
          ih (nodup_of_cons hnodup) (armed \ {i}) ((rule i).cancel w)
        refine ⟨armed', ?_, ?_, hnew⟩
        · refine Relation.ReflTransGen.head
            (Reactor.Step.expire hinstalled hexpired) ?_
          rw [setOf_mem_diff hnodup]
          exact hreaches
        · intro j hj harmed
          refine hkept j hj ⟨harmed, ?_⟩
          rintro rfl
          exact hi hj
      · rw [if_neg hexpired]
        -- the rule joins the ones that have been set up
        have hshift : ∀ l : List ι,
            {j | j ∈ done ++ [i] ++ l} = {j | j ∈ done ++ i :: l} := by
          intro l
          rw [List.append_assoc, List.singleton_append]
        have hnodup' : (done ++ [i] ++ rules).Nodup := by
          rw [List.append_assoc, List.singleton_append]
          exact hnodup
        by_cases hinterest : (rule i).interest w = true
        · obtain ⟨armed', hreaches, hkept, hnew⟩ :=
            ih hnodup' (insert i armed) w
          rw [hshift, hshift] at hreaches
          refine ⟨armed', Relation.ReflTransGen.head
            (Reactor.Step.arm hinstalled hexpired hinterest) hreaches, ?_, ?_⟩
          · intro j hj harmed
            exact hkept j (List.mem_append_left _ hj) (Set.mem_insert_of_mem _ harmed)
          · intro j d hmem
            rcases List.mem_cons.mp hmem with hfirst | hrest
            · obtain rfl : j = i := congrArg Prod.fst hfirst
              exact hkept j (by simp) (Set.mem_insert _ _)
            · exact hnew j d hrest
        · obtain ⟨armed', hreaches, hkept, hnew⟩ := ih hnodup' armed w
          rw [hshift, hshift] at hreaches
          refine ⟨armed', hreaches, ?_, ?_⟩
          · intro j hj
            exact hkept j (List.mem_append_left _ hj)
          · intro j d hmem
            rcases List.mem_cons.mp hmem with hfirst | hrest
            · rw [if_neg hinterest] at hfirst
              cases congrArg Prod.snd hfirst
            · exact hnew j d hrest

/-! ## The second loop -/

theorem serve_sublist {polled : List (ι × Option Direction)}
    {revents : List Revents} {w : W} {rules : List ι}
    (h : (serve rule polled revents w).2 = .ok rules) :
    rules.Sublist (polled.map Prod.fst) := by
  induction polled generalizing revents w rules with
  | nil =>
      cases h
      exact List.Sublist.refl _
  | cons entry polled ih =>
      obtain ⟨i, events⟩ := entry
      unfold serve at h
      dsimp only at h
      split at h
      · cases h
      split at h
      · exact (ih h).cons i
      split at h
      · cases h
      · rcases hrest : (serve rule polled revents.tail _).2 with e | rest
        · rw [hrest] at h
          cases h
        · rw [hrest] at h
          cases h
          exact (ih hrest).cons_cons i

theorem HangsUp.tail {entry : ι × Option Direction}
    {polled : List (ι × Option Direction)} {revents : List Revents} {i : ι}
    (h : HangsUp polled revents.tail i) : HangsUp (entry :: polled) revents i := by
  cases revents with
  | nil =>
      obtain ⟨entry, hmem, -⟩ := h
      simp at hmem
  | cons this revents =>
      obtain ⟨entry, hmem, hrest⟩ := h
      exact ⟨entry, List.mem_cons_of_mem _ hmem, hrest⟩

theorem hangsUp_head {i : ι} {events : Option Direction}
    {polled : List (ι × Option Direction)} {revents : List Revents}
    (hhup : (revents.headD {}).pollHup = true)
    (hready : events.any (revents.headD {}).has = false) :
    HangsUp ((i, events) :: polled) revents i := by
  cases revents with
  | nil => cases hhup
  | cons this revents =>
      exact ⟨((i, events), this), List.mem_cons_self, rfl, hhup, hready⟩

/-- The rules before those of `polled` have been served already. -/
theorem exists_reaches_serve {done : List ι}
    {polled : List (ι × Option Direction)}
    (hnodup : (done ++ polled.map Prod.fst).Nodup) {armed : Set ι}
    (harmed : ∀ i d, (i, some d) ∈ polled → i ∈ armed)
    {revents : List Revents} (hH : ∀ i, HangsUp polled revents i → H i)
    (w : W) :
    ∃ s, Reactor.Reaches (reactor rule) H
          ⟨{i | i ∈ done ++ polled.map Prod.fst}, armed, w⟩ s ∧
        s.world = (serve rule polled revents w).1 ∧
        ∀ rules, (serve rule polled revents w).2 = .ok rules →
          s.installed = {i | i ∈ done ++ rules} := by
  induction polled generalizing done armed revents w with
  | nil =>
      refine ⟨_, Relation.ReflTransGen.refl, rfl, ?_⟩
      intro rules hok
      cases hok
      rfl
  | cons entry polled ih =>
      obtain ⟨i, events⟩ := entry
      rw [List.map_cons] at hnodup ⊢
      have hinstalled : i ∈ {j | j ∈ done ++ i :: polled.map Prod.fst} := by
        simp
      have hne : ∀ j d, (j, some d) ∈ polled → j ≠ i := by
        rintro j d hmem rfl
        rw [List.nodup_middle] at hnodup
        refine (List.nodup_cons.mp hnodup).1 (List.mem_append_right _ ?_)
        exact List.mem_map.mpr ⟨_, hmem, rfl⟩
      have hlater : ∀ j d, (j, some d) ∈ polled → j ∈ armed \ {i} :=
        fun j d hmem =>
          ⟨harmed j d (List.mem_cons_of_mem _ hmem), hne j d hmem⟩
      unfold serve
      dsimp only
      split
      · -- an error on the descriptor
        refine ⟨_, Relation.ReflTransGen.refl, rfl, ?_⟩
        intro rules hok
        cases hok
      split
      · rename_i hhup
        obtain ⟨hhup, hsome, hready⟩ := hhup
        obtain ⟨d, rfl⟩ := Option.isSome_iff_exists.mp hsome
        have hi := hH i
          (hangsUp_head hhup (Bool.eq_false_of_not_eq_true hready))
        obtain ⟨s, hreaches, hworld, hrules⟩ := ih (nodup_of_cons hnodup)
          hlater (fun j hj => hH j hj.tail) ((rule i).cancel w)
        refine ⟨s, Relation.ReflTransGen.head (Reactor.Step.hangUp hinstalled
          (harmed i d List.mem_cons_self) hi) ?_, hworld, hrules⟩
        rw [setOf_mem_diff hnodup]
        exact hreaches
      -- the rule stays, and is called if it is ready
      have hshift : ∀ l : List ι,
          {j | j ∈ done ++ [i] ++ l} = {j | j ∈ done ++ i :: l} := by
        intro l
        rw [List.append_assoc, List.singleton_append]
      have hnodup' : (done ++ [i] ++ polled.map Prod.fst).Nodup := by
        rw [List.append_assoc, List.singleton_append]
        exact hnodup
      have hgoes : ∀ (armed : Set ι) (w : W),
          (∀ j d, (j, some d) ∈ polled → j ∈ armed) →
          ∃ s, Reactor.Reaches (reactor rule) H
              ⟨{j | j ∈ done ++ i :: polled.map Prod.fst}, armed, w⟩ s ∧
            s.world = (serve rule polled revents.tail w).1 ∧
            ∀ rules, (serve rule polled revents.tail w).2.map (i :: ·) =
                .ok rules → s.installed = {j | j ∈ done ++ rules} := by
        intro armed w harmed
        obtain ⟨s, hreaches, hworld, hrules⟩ :=
          ih hnodup' harmed (fun j hj => hH j hj.tail) w
        rw [hshift] at hreaches
        refine ⟨s, hreaches, hworld, ?_⟩
        intro rules hok
        rcases hrest : (serve rule polled revents.tail w).2 with e | rest
        · rw [hrest] at hok
          cases hok
        · rw [hrest] at hok
          cases hok
          rw [hrules rest hrest, hshift]
      by_cases hready : events.any (revents.headD {}).has = true
      · rw [if_pos hready]
        obtain ⟨d, rfl⟩ : ∃ d, events = some d := by
          cases events with
          | none => cases hready
          | some d => exact ⟨d, rfl⟩
        have hcall : Reactor.Step (reactor rule) H
            ⟨{j | j ∈ done ++ i :: polled.map Prod.fst}, armed, w⟩
            ⟨{j | j ∈ done ++ i :: polled.map Prod.fst}, armed \ {i},
              ((rule i).call w).1⟩ := by
          rw [Rule.fst_call]
          exact Reactor.Step.call hinstalled (harmed i d List.mem_cons_self)
        rcases hresult : (rule i).call w with ⟨w', e | ⟨⟩⟩
        · rw [hresult] at hcall
          refine ⟨_, Relation.ReflTransGen.single hcall, rfl, ?_⟩
          intro rules hok
          cases hok
        · rw [hresult] at hcall
          obtain ⟨s, hreaches, hworld, hrules⟩ := hgoes _ w' hlater
          exact ⟨s, Relation.ReflTransGen.head hcall hreaches, hworld, hrules⟩
      · rw [if_neg hready]
        exact hgoes armed w fun j d hmem => (hlater j d hmem).1

/-! ## A call and a run -/

/-- **The event loop refines the reactor.**  Whatever `poll` answers, a call of
`wait_next_event` takes the reactor from rest to rest, with the rules that the
call leaves; if it throws, the world is one that the reactor reaches. -/
theorem exists_reaches_waitNextEvent {rules : List ι} (hnodup : rules.Nodup)
    (answer : PollAnswer) (w : W)
    (hH : ∀ i, HangsUp (setUp rule rules w).2 answer.revents i → H i) :
    (∃ s, Reactor.Reaches (reactor rule) H (resting rules w) s ∧
        s.world = (waitNextEvent rule rules answer w).1) ∧
      ∀ rules' result,
        (waitNextEvent rule rules answer w).2 = .ok (rules', result) →
        Reactor.Reaches (reactor rule) H (resting rules w)
            (resting rules' (waitNextEvent rule rules answer w).1) ∧
          rules'.Sublist rules := by
  obtain ⟨armed, hfirst, -, harmed⟩ :=
    @exists_reaches_setUp _ _ rule H [] rules hnodup ∅ w
  have hsub := setUp_sublist rule rules w
  rw [List.nil_append, List.nil_append] at hfirst
  rcases hset : setUp rule rules w with ⟨w₁, polled⟩
  simp only [hset] at hfirst harmed hsub hH
  -- the calls that end after the first loop
  have hends : ∀ result : Result, (∃ s, Reactor.Reaches (reactor rule) H
        (resting rules w) s ∧ s.world = w₁) ∧
      ∀ rules' result', (.ok (polled.map Prod.fst, result) :
          Except Failure (List ι × Result)) = .ok (rules', result') →
        Reactor.Reaches (reactor rule) H (resting rules w)
          (resting rules' w₁) ∧ rules'.Sublist rules := by
    intro result
    have hrest := hfirst.tail Reactor.Step.disarm
    refine ⟨⟨_, hfirst, rfl⟩, ?_⟩
    intro rules' result' hok
    cases hok
    exact ⟨hrest, hsub⟩
  have hserves : (∃ s, Reactor.Reaches (reactor rule) H
        (resting rules w) s ∧
        s.world = (serve rule polled answer.revents w₁).1) ∧
      ∀ rules' result', ((serve rule polled answer.revents w₁).2.map
          (·, Result.success) : Except Failure (List ι × Result)) =
            .ok (rules', result') →
        Reactor.Reaches (reactor rule) H (resting rules w)
          (resting rules' (serve rule polled answer.revents w₁).1) ∧
          rules'.Sublist rules := by
    obtain ⟨s, hsecond, hworld, hrules⟩ :=
      @exists_reaches_serve _ _ rule H [] polled (hnodup.sublist hsub) armed
        harmed answer.revents hH w₁
    rw [List.nil_append] at hsecond
    have hreaches := hfirst.trans hsecond
    refine ⟨⟨s, hreaches, hworld⟩, ?_⟩
    intro rules' result' hok
    rcases hleft : (serve rule polled answer.revents w₁).2 with e | left
    · rw [hleft] at hok
      cases hok
    · rw [hleft] at hok
      cases hok
      have hrest := hreaches.tail Reactor.Step.disarm
      rw [hrules rules' hleft, hworld, List.nil_append] at hrest
      exact ⟨hrest, (serve_sublist hleft).trans hsub⟩
  unfold waitNextEvent
  simp only [hset]
  split
  · exact hends .exit
  · split
    · exact hends .timeout
    · exact hends .exit
    · exact hserves

/-- An invariant holds at rest, where no rule is armed. -/
theorem holds_resting {I : Set ι → W → Prop} {A : ι → W → Prop}
    {rules : List ι} {w : W} (h : I {i | i ∈ rules} w) :
    Reactor.Holds I A (resting rules w) := by
  refine ⟨h, ?_⟩
  intro i hi
  cases hi

/-- The invariant rule for one call. -/
theorem waitNextEvent_invariant {I : Set ι → W → Prop} {A : ι → W → Prop}
    (h : Reactor.Invariant (reactor rule) H I A) {rules : List ι}
    (hnodup : rules.Nodup) (answer : PollAnswer) {w : W}
    (hstart : I {i | i ∈ rules} w)
    (hH : ∀ i, HangsUp (setUp rule rules w).2 answer.revents i → H i) :
    (∃ installed, I installed (waitNextEvent rule rules answer w).1) ∧
      ∀ rules' result,
        (waitNextEvent rule rules answer w).2 = .ok (rules', result) →
        I {i | i ∈ rules'} (waitNextEvent rule rules answer w).1 ∧
          rules'.Sublist rules := by
  obtain ⟨⟨s, hreaches, hworld⟩, hok⟩ :=
    exists_reaches_waitNextEvent hnodup answer w hH
  refine ⟨⟨s.installed, ?_⟩, ?_⟩
  · rw [← hworld]
    exact (h.reaches hreaches (holds_resting hstart)).1
  · intro rules' result hresult
    obtain ⟨hreaches', hsub⟩ := hok rules' result hresult
    exact ⟨(h.reaches hreaches' (holds_resting hstart)).1, hsub⟩

/-- The rules that may hang up in this call are those of `H`. -/
def Loop.HangUpsIn (rule : ι → Rule W) (H : ι → Prop) (l : Loop ι W)
    (answer : PollAnswer) : Prop :=
  ∀ i, HangsUp (setUp rule l.rules l.world).2 answer.revents i → H i

instance [DecidablePred H] (l : Loop ι W) (answer : PollAnswer) :
    Decidable (l.HangUpsIn rule H answer) :=
  decidable_of_iff
    (∀ entry ∈ (setUp rule l.rules l.world).2.zip answer.revents,
      entry.2.pollHup = true → entry.1.2.any entry.2.has = false →
        H entry.1.1)
    ⟨fun h _ ⟨entry, hmem, hi, hhup, hnot⟩ => hi ▸ h entry hmem hhup hnot,
      fun h entry hmem hhup hnot => h _ ⟨entry, hmem, rfl, hhup, hnot⟩⟩

/-- The loop comes from rest at `rules` and `w` and, unless an exception was
thrown, is at rest. -/
structure Loop.From (rule : ι → Rule W) (H : ι → Prop) (rules : List ι) (w : W)
    (l : Loop ι W) : Prop where
  nodup : l.rules.Nodup
  sublist : l.rules.Sublist rules
  world : ∃ s, Reactor.Reaches (reactor rule) H (resting rules w) s ∧
    s.world = l.world
  rest : (∀ e, l.ended ≠ some (.error e)) →
    Reactor.Reaches (reactor rule) H (resting rules w)
      (resting l.rules l.world)

theorem Loop.From.step {rules : List ι} {w : W} {l : Loop ι W}
    (h : l.From rule H rules w) {answer : PollAnswer}
    (hH : l.HangUpsIn rule H answer) :
    (l.step rule answer).From rule H rules w := by
  unfold Loop.step
  split
  · exact h
  rename_i hended
  have hrest := h.rest fun e he => hended (by rw [he]; rfl)
  obtain ⟨⟨s, hreaches, hworld⟩, hok⟩ :=
    exists_reaches_waitNextEvent h.nodup answer l.world hH
  rcases hcall : waitNextEvent rule l.rules answer l.world with
    ⟨w', e | ⟨rules', result⟩⟩
  · rw [hcall] at hworld
    refine ⟨h.nodup, h.sublist, ⟨s, hrest.trans hreaches, hworld⟩, ?_⟩
    intro hno
    exact absurd rfl (hno e)
  · rw [hcall] at hok
    obtain ⟨hreaches', hsub⟩ := hok rules' result rfl
    exact ⟨h.nodup.sublist hsub, hsub.trans h.sublist,
      ⟨_, hrest.trans hreaches', rfl⟩, fun _ => hrest.trans hreaches'⟩

theorem Loop.from_run {rules : List ι} (hnodup : rules.Nodup) {w : W}
    {answers : List PollAnswer}
    (hH : EveryStep (Loop.step rule) ⟨rules, w, none⟩ answers
      (Loop.HangUpsIn rule H)) :
    (answers.foldl (Loop.step rule) ⟨rules, w, none⟩).From rule H rules w :=
  hH.invariant (fun _ _ hl hguard => hl.step hguard)
    ⟨hnodup, List.Sublist.refl _, ⟨_, Relation.ReflTransGen.refl, rfl⟩,
      fun _ => Relation.ReflTransGen.refl⟩

/-- The invariant rule for the loop. -/
theorem Loop.invariant {I : Set ι → W → Prop} {A : ι → W → Prop}
    (h : Reactor.Invariant (reactor rule) H I A) {rules : List ι}
    (hnodup : rules.Nodup) {w : W} (hstart : I {i | i ∈ rules} w)
    {answers : List PollAnswer}
    (hH : EveryStep (Loop.step rule) ⟨rules, w, none⟩ answers
      (Loop.HangUpsIn rule H)) :
    let l := answers.foldl (Loop.step rule) ⟨rules, w, none⟩
    (∃ installed, I installed l.world) ∧
      ((∀ e, l.ended ≠ some (.error e)) → I {i | i ∈ l.rules} l.world) := by
  intro l
  have hfrom : l.From rule H rules w := Loop.from_run hnodup hH
  obtain ⟨s, hreaches, hworld⟩ := hfrom.world
  refine ⟨⟨s.installed, ?_⟩, ?_⟩
  · rw [← hworld]
    exact (h.reaches hreaches (holds_resting hstart)).1
  · intro hno
    exact (h.reaches (hfrom.rest hno) (holds_resting hstart)).1

/-! ## The exit -/

/-- A rule does not notice the first loop if it does not notice the cancelling
of its rules. -/
theorem interest_setUp_eq {rules : List ι} {i : ι}
    (h : ∀ j ∈ rules, ∀ w,
      (rule i).interest ((rule j).cancel w) = (rule i).interest w) (w : W) :
    (rule i).interest (setUp rule rules w).1 = (rule i).interest w := by
  induction rules generalizing w with
  | nil => rfl
  | cons j rules ih =>
      have hrest := ih fun k hk => h k (List.mem_cons_of_mem _ hk)
      unfold setUp
      split
      · rw [hrest, h j List.mem_cons_self]
      · exact hrest w

/-- The rules that are left but not polled are not interested when the first
loop ends, if cancelling the rules behind them does not change that. -/
theorem interest_setUp {rules : List ι}
    (hrules : rules.Pairwise fun i j => ∀ w,
      (rule i).interest ((rule j).cancel w) = (rule i).interest w)
    {w : W} {i : ι} (hi : (i, none) ∈ (setUp rule rules w).2) :
    (rule i).interest (setUp rule rules w).1 = false := by
  induction rules generalizing w with
  | nil => cases hi
  | cons j rules ih =>
      obtain ⟨hj, hrest⟩ := List.pairwise_cons.mp hrules
      unfold setUp at hi ⊢
      split at hi
      · rename_i hexpired
        rw [if_pos hexpired]
        exact ih hrest hi
      · rename_i hexpired
        rw [if_neg hexpired]
        rcases List.mem_cons.mp hi with hfirst | hlater
        · obtain rfl : i = j := congrArg Prod.fst hfirst
          have hnot := congrArg Prod.snd hfirst
          dsimp only at hnot ⊢
          rw [interest_setUp_eq hj]
          split at hnot
          · cases hnot
          · rename_i hno
            exact Bool.eq_false_of_not_eq_true hno
        · exact ih hrest hlater

/-- When the loop ends because there is nothing to poll, no rule that is left is
interested. -/
theorem Loop.interest_of_exit {l : Loop ι W} (hrunning : l.ended = none)
    (hrules : l.rules.Pairwise fun i j => ∀ w,
      (rule i).interest ((rule j).cancel w) = (rule i).interest w)
    {answer : PollAnswer} (hanswer : answer ≠ .interrupted)
    (hexit : (l.step rule answer).ended = some (.ok ())) :
    ∀ i ∈ (l.step rule answer).rules,
      (rule i).interest (l.step rule answer).world = false := by
  have hnone : ∀ i d,
      (setUp rule l.rules l.world).2.all (·.2.isNone) = true →
        (i, d) ∈ (setUp rule l.rules l.world).2 →
        (rule i).interest (setUp rule l.rules l.world).1 = false := by
    intro i d hall hmem
    have hd := List.all_eq_true.mp hall _ hmem
    dsimp only at hd
    rw [Option.isNone_iff_eq_none] at hd
    subst hd
    exact interest_setUp hrules hmem
  rcases hset : setUp rule l.rules l.world with ⟨w, polled⟩
  simp only [hset] at hnone
  simp only [Loop.step, hrunning, Option.isSome_none, Bool.false_eq_true,
    if_false, waitNextEvent, hset] at hexit ⊢
  by_cases hall : polled.all (·.2.isNone) = true
  · simp only [hall, if_true]
    intro i hi
    obtain ⟨entry, hmem, rfl⟩ := List.mem_map.mp hi
    exact hnone entry.1 entry.2 hall hmem
  · simp only [hall] at hexit
    cases answer with
    | interrupted => exact absurd rfl hanswer
    | timeout => simp at hexit
    | failed | ready revents =>
        rcases hserve : serve rule polled _ w with ⟨w', e | left⟩
        · simp [hserve, Except.map] at hexit
        · simp [hserve, Except.map] at hexit

/-- The same for a run, which no signal has interrupted. -/
theorem Loop.interest_of_ended {rules : List ι}
    (hrules : rules.Pairwise fun i j => ∀ w,
      (rule i).interest ((rule j).cancel w) = (rule i).interest w)
    (hnodup : rules.Nodup) {w : W} {answers : List PollAnswer}
    (hanswers : .interrupted ∉ answers)
    (hended : (answers.foldl (Loop.step rule) ⟨rules, w, none⟩).ended =
      some (.ok ())) :
    let l := answers.foldl (Loop.step rule) ⟨rules, w, none⟩
    ∀ i ∈ l.rules, (rule i).interest l.world = false := by
  have hguard : EveryStep (Loop.step rule) ⟨rules, w, none⟩ answers
      fun l answer => l.HangUpsIn rule (fun _ => True) answer ∧
        answer ≠ .interrupted :=
    EveryStep.and (fun _ _ _ _ _ => trivial)
      (everyStep_iff_forall_mem.mpr fun answer hmem heq =>
        hanswers (heq ▸ hmem))
  have hrun := hguard.invariant (I := fun l : Loop ι W =>
    l.From rule (fun _ => True) rules w ∧ (l.ended = some (.ok ()) →
      ∀ i ∈ l.rules, (rule i).interest l.world = false)) ?_ ?_
  · exact hrun.2 hended
  · rintro l answer ⟨hfrom, hold⟩ ⟨hhang, hsignal⟩
    refine ⟨hfrom.step hhang, ?_⟩
    by_cases hrunning : l.ended = none
    · exact Loop.interest_of_exit hrunning (hrules.sublist hfrom.sublist)
        hsignal
    · have hsame : l.step rule answer = l := by
        rw [Loop.step, if_pos (Option.isSome_iff_ne_none.mpr hrunning)]
      rw [hsame]
      exact hold
  · refine ⟨⟨hnodup, List.Sublist.refl _, ⟨_, Relation.ReflTransGen.refl, rfl⟩,
      fun _ => Relation.ReflTransGen.refl⟩, ?_⟩
    intro hexit
    cases hexit

end EventLoop
end Sponge
