import Sponge.Support.Runs

/-!
# Events inserted into a run

A machine that answers every event with an output is run twice: with some events
inserted into the run, and without them.  The inserted events are not noticed if
they are answered with nothing and the answers to all other events are the same.
-/

namespace Sponge.Support

variable {σ ι κ ω : Type*} (call : σ → ι → σ × ω) (inserted : κ → ι)

/-- The answers to the events of a run. -/
def outputs : σ → List ι → List ω
  | _, [] => []
  | s, event :: events =>
      (call s event).2 :: outputs (call s event).1 events

/-- A step of a run into which events were inserted. -/
def insertedStep (s : σ) : ι ⊕ κ → σ
  | .inl event => (call s event).1
  | .inr extra => (call s (inserted extra)).1

/-- The answers to the events that were not inserted. -/
def keptOutputs : σ → List (ι ⊕ κ) → List ω
  | _, [] => []
  | s, .inl event :: items =>
      (call s event).2 :: keptOutputs (call s event).1 items
  | s, .inr extra :: items => keptOutputs (call s (inserted extra)).1 items

/-- Nothing shows of the inserted events, each of which is answered with
`silent`. -/
def Unnoticed (silent : ω) (s : σ) (items : List (ι ⊕ κ)) : Prop :=
  keptOutputs call inserted s items =
      outputs call s (items.filterMap Sum.getLeft?) ∧
    EveryStep (insertedStep call inserted) s items fun s item =>
      ∀ extra, item = .inr extra → (call s (inserted extra)).2 = silent

instance decidableForallInr {P : κ → Prop} [DecidablePred P] :
    (item : ι ⊕ κ) → Decidable (∀ extra, item = .inr extra → P extra)
  | .inl _ => .isTrue (by intro extra h; cases h)
  | .inr extra => decidable_of_iff (P extra) (by simp)

variable {call inserted} {silent : ω}

theorem keptOutputs_map_inl (s : σ) (events : List ι) :
    keptOutputs call inserted s (events.map .inl) = outputs call s events := by
  induction events generalizing s with
  | nil => rfl
  | cons event events ih =>
      rw [List.map_cons, keptOutputs, outputs, ih]

theorem filterMap_getLeft?_map_inl (events : List ι) :
    (events.map (Sum.inl : ι → ι ⊕ κ)).filterMap Sum.getLeft? = events := by
  induction events with
  | nil => rfl
  | cons event events ih =>
      rw [List.map_cons, List.filterMap_cons, Sum.getLeft?_inl, ih]

theorem unnoticed_inl_cons {s : σ} {event : ι} {items : List (ι ⊕ κ)} :
    Unnoticed call inserted silent s (.inl event :: items) ↔
      Unnoticed call inserted silent (call s event).1 items := by
  simp only [Unnoticed, keptOutputs, insertedStep, everyStep_cons, reduceCtorEq,
    List.filterMap_cons, Sum.getLeft?_inl, outputs, List.cons.injEq,
    true_and, false_imp_iff, implies_true]

theorem Unnoticed.silent_of_cons {s : σ} {extra : κ} {items : List (ι ⊕ κ)}
    (h : Unnoticed call inserted silent s (.inr extra :: items)) :
    (call s (inserted extra)).2 = silent :=
  (everyStep_cons.mp h.2).1 extra rfl

/-- An event that is answered with nothing and changes nothing may be left
out. -/
theorem unnoticed_inr_cons {s : σ} {extra : κ} {items : List (ι ⊕ κ)}
    (h : call s (inserted extra) = (s, silent)) :
    Unnoticed call inserted silent s (.inr extra :: items) ↔
      Unnoticed call inserted silent s items := by
  simp only [Unnoticed, keptOutputs, insertedStep, everyStep_cons, h,
    List.filterMap_cons, Sum.getLeft?_inr, Sum.inr.injEq, forall_eq',
    true_and]

theorem unnoticed_map_inl (s : σ) (events : List ι) :
    Unnoticed call inserted silent s (events.map .inl) := by
  induction events generalizing s with
  | nil => exact ⟨rfl, everyStep_nil⟩
  | cons event events ih => exact unnoticed_inl_cons.mpr (ih _)

/-- Inserted events that meet `H` in the state in which they come, and so are
answered with nothing and change nothing, are not noticed. -/
theorem Unnoticed.of_everyStep {I : σ → Prop} {G : κ → Prop}
    {H : σ → κ → Prop} (hstep : ∀ s event, I s → I (call s event).1)
    (hsame : ∀ s extra, I s → G extra → H s extra →
      call s (inserted extra) = (s, silent))
    {items : List (ι ⊕ κ)} {s : σ} (hstart : I s)
    (hG : ∀ extra, .inr extra ∈ items → G extra)
    (h : EveryStep (insertedStep call inserted) s items fun s item =>
      ∀ extra, item = .inr extra → H s extra) (later : List ι) :
    Unnoticed call inserted silent s (items ++ later.map .inl) := by
  induction items generalizing s with
  | nil => exact unnoticed_map_inl s later
  | cons item items ih =>
      have hrest : ∀ extra, .inr extra ∈ items → G extra :=
        fun extra hmem => hG extra (List.mem_cons_of_mem _ hmem)
      obtain ⟨hfirst, hlater⟩ := everyStep_cons.mp h
      cases item with
      | inl event =>
          exact unnoticed_inl_cons.mpr (ih (hstep s event hstart) hrest hlater)
      | inr extra =>
          have hcall := hsame s extra hstart (hG extra (List.mem_cons_self ..))
            (hfirst extra rfl)
          rw [insertedStep, hcall] at hlater
          exact (unnoticed_inr_cons hcall).mpr (ih hstart hrest hlater)

/-- If an event that does not meet `H` shows in its answer or in some later one,
then these are the runs in which no event is ever noticed, whatever comes
after it. -/
theorem forall_unnoticed_iff {I : σ → Prop} {G : κ → Prop}
    {H : σ → κ → Prop} (hstep : ∀ s event, I s → I (call s event).1)
    (hsame : ∀ s extra, I s → G extra → H s extra →
      call s (inserted extra) = (s, silent))
    (hshows : ∀ s extra, I s → G extra →
      (call s (inserted extra)).2 = silent →
      (∀ later, outputs call (call s (inserted extra)).1 later =
        outputs call s later) → H s extra)
    {items : List (ι ⊕ κ)} {s : σ} (hstart : I s)
    (hG : ∀ extra, .inr extra ∈ items → G extra) :
    (∀ done, done <+: items → ∀ later : List ι,
        Unnoticed call inserted silent s (done ++ later.map .inl)) ↔
      EveryStep (insertedStep call inserted) s items fun s item =>
        ∀ extra, item = .inr extra → H s extra := by
  constructor
  · intro h
    induction items generalizing s with
    | nil => exact everyStep_nil
    | cons item items ih =>
        have hrest : ∀ extra, .inr extra ∈ items → G extra :=
          fun extra hmem => hG extra (List.mem_cons_of_mem _ hmem)
        have hcons : ∀ done, done <+: items → ∀ later : List ι,
            Unnoticed call inserted silent s
              (item :: (done ++ later.map .inl)) :=
          fun done hdone => h (item :: done)
            ((List.prefix_cons_inj item).mpr hdone)
        refine everyStep_cons.mpr ?_
        cases item with
        | inl event =>
            refine ⟨fun extra heq => (by cases heq), ?_⟩
            exact ih (hstep s event hstart) hrest fun done hdone later =>
              unnoticed_inl_cons.mp (hcons done hdone later)
        | inr extra =>
            have hfirst : H s extra := by
              refine hshows s extra hstart (hG extra (List.mem_cons_self ..))
                (hcons [] List.nil_prefix []).silent_of_cons ?_
              intro later
              have hkept := (hcons [] List.nil_prefix later).1
              rw [List.nil_append, keptOutputs, keptOutputs_map_inl] at hkept
              rw [hkept, List.filterMap_cons, Sum.getLeft?_inr,
                filterMap_getLeft?_map_inl]
            have hcall := hsame s extra hstart
              (hG extra (List.mem_cons_self ..)) hfirst
            refine ⟨fun extra' heq => Sum.inr.inj heq ▸ hfirst, ?_⟩
            rw [insertedStep, hcall]
            exact ih hstart hrest fun done hdone later =>
              (unnoticed_inr_cons hcall).mp (hcons done hdone later)
  · intro h done hdone later
    exact Unnoticed.of_everyStep hstep hsame hstart
      (fun extra hmem => hG extra (hdone.subset hmem)) (h.restrict hdone) later

end Sponge.Support
