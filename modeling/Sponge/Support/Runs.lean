import Mathlib.Data.List.Infix

/-!
# Runs of a deterministic machine

A machine is a step function on states; a run folds it over a finite list of
events.  This module states the two ways in which a run is quantified over
(its states and its steps) and the induction rules that go with them.  Nothing
here depends on what the states and the events are.
-/

namespace Sponge.Support

variable {σ ι : Type*} (step : σ → ι → σ)

/-- `Q` holds in every state of the run, the first and the last included. -/
def EveryState (s : σ) (events : List ι) (Q : σ → Prop) : Prop :=
  ∀ done, done <+: events → Q (done.foldl step s)

/-- `P` holds of every event of the run in the state in which it is taken. -/
def EveryStep (s : σ) (events : List ι) (P : σ → ι → Prop) : Prop :=
  ∀ done event, done ++ [event] <+: events → P (done.foldl step s) event

variable {step}

theorem everyState_nil {s : σ} {Q : σ → Prop} :
    EveryState step s [] Q ↔ Q s := by
  constructor
  · intro h
    exact h [] (List.prefix_refl _)
  · intro h done hdone
    rw [List.prefix_nil.mp hdone]
    exact h

theorem everyState_cons {s : σ} {event : ι} {events : List ι} {Q : σ → Prop} :
    EveryState step s (event :: events) Q ↔
      Q s ∧ EveryState step (step s event) events Q := by
  constructor
  · intro h
    refine ⟨h [] List.nil_prefix, ?_⟩
    intro done hdone
    exact h (event :: done) ((List.prefix_cons_inj event).mpr hdone)
  · rintro ⟨hfirst, hrest⟩ done hdone
    cases done with
    | nil => exact hfirst
    | cons first done =>
        obtain ⟨rfl, hrestdone⟩ := List.cons_prefix_cons.mp hdone
        exact hrest done hrestdone

theorem everyStep_nil {s : σ} {P : σ → ι → Prop} :
    EveryStep step s [] P := by
  intro done event hdone
  simp at hdone

theorem everyStep_cons {s : σ} {event : ι} {events : List ι}
    {P : σ → ι → Prop} :
    EveryStep step s (event :: events) P ↔
      P s event ∧ EveryStep step (step s event) events P := by
  constructor
  · intro h
    refine ⟨h [] event (by simp), ?_⟩
    intro done next hdone
    exact h (event :: done) next ((List.prefix_cons_inj event).mpr hdone)
  · rintro ⟨hfirst, hrest⟩ done next hdone
    cases done with
    | nil =>
        obtain ⟨rfl, -⟩ := List.cons_prefix_cons.mp hdone
        exact hfirst
    | cons first done =>
        obtain ⟨rfl, hrestdone⟩ := List.cons_prefix_cons.mp hdone
        exact hrest done next hrestdone

theorem everyStep_append {s : σ} {events events' : List ι}
    {P : σ → ι → Prop} :
    EveryStep step s (events ++ events') P ↔
      EveryStep step s events P ∧
        EveryStep step (events.foldl step s) events' P := by
  induction events generalizing s with
  | nil => simp [everyStep_nil]
  | cons event events ih =>
      rw [List.cons_append, everyStep_cons, everyStep_cons, ih, and_assoc]
      rfl

instance decidableEveryStep {P : σ → ι → Prop}
    [∀ s event, Decidable (P s event)] :
    ∀ (events : List ι) (s : σ), Decidable (EveryStep step s events P)
  | [], _ => .isTrue everyStep_nil
  | event :: events, s =>
      have := decidableEveryStep (P := P) events (step s event)
      decidable_of_iff _ everyStep_cons.symm

instance decidableEveryState {Q : σ → Prop} [DecidablePred Q] :
    ∀ (events : List ι) (s : σ), Decidable (EveryState step s events Q)
  | [], _ => decidable_of_iff _ everyState_nil.symm
  | event :: events, s =>
      have := decidableEveryState (Q := Q) events (step s event)
      decidable_of_iff _ everyState_cons.symm

theorem EveryState.last {s : σ} {events : List ι} {Q : σ → Prop}
    (h : EveryState step s events Q) : Q (events.foldl step s) :=
  h events (List.prefix_refl _)

theorem EveryStep.and {s : σ} {events : List ι} {P R : σ → ι → Prop}
    (hP : EveryStep step s events P) (hR : EveryStep step s events R) :
    EveryStep step s events fun s event => P s event ∧ R s event := by
  intro done event hdone
  exact ⟨hP done event hdone, hR done event hdone⟩

theorem everyStep_and {s : σ} {events : List ι} {P R : σ → ι → Prop} :
    EveryStep step s events (fun s event => P s event ∧ R s event) ↔
      EveryStep step s events P ∧ EveryStep step s events R := by
  constructor
  · intro h
    exact ⟨fun done event hdone => (h done event hdone).1,
      fun done event hdone => (h done event hdone).2⟩
  · rintro ⟨hP, hR⟩
    exact hP.and hR

theorem EveryStep.restrict {s : σ} {done events : List ι}
    {P : σ → ι → Prop} (h : EveryStep step s events P)
    (hdone : done <+: events) : EveryStep step s done P := by
  intro earlier event hearlier
  exact h earlier event (hearlier.trans hdone)

/-- The invariant rule: what holds at the start and is preserved by every step
that meets the guard `P` holds at the end of a run all of whose steps meet
it. -/
theorem EveryStep.invariant {I : σ → Prop} {P : σ → ι → Prop}
    (hstep : ∀ s event, I s → P s event → I (step s event))
    {events : List ι} {s : σ} (hstart : I s)
    (h : EveryStep step s events P) : I (events.foldl step s) := by
  induction events generalizing s with
  | nil => exact hstart
  | cons event events ih =>
      obtain ⟨hguard, hrest⟩ := everyStep_cons.mp h
      exact ih (hstep s event hstart hguard) hrest

/-- Two machines that agree on the states and events of a run run alike. -/
theorem EveryStep.foldl_eq {step' : σ → ι → σ} {I : σ → Prop}
    {P : σ → ι → Prop}
    (hstep : ∀ s event, I s → P s event → I (step s event))
    (hsame : ∀ s event, I s → P s event → step' s event = step s event)
    {events : List ι} {s : σ} (hstart : I s)
    (h : EveryStep step s events P) :
    events.foldl step' s = events.foldl step s := by
  induction events generalizing s with
  | nil => rfl
  | cons event events ih =>
      obtain ⟨hguard, hrest⟩ := everyStep_cons.mp h
      rw [List.foldl_cons, List.foldl_cons, hsame s event hstart hguard]
      exact ih (hstep s event hstart hguard) hrest

/-- The invariant rule without a guard. -/
theorem foldl_invariant {I : σ → Prop}
    (hstep : ∀ s event, I s → I (step s event))
    (events : List ι) {s : σ} (hstart : I s) :
    I (events.foldl step s) := by
  induction events generalizing s with
  | nil => exact hstart
  | cons event events ih => exact ih (hstep s event hstart)

/-- The invariant rule for properties of the state and of the events taken so
far. -/
theorem EveryStep.history {I : List ι → σ → Prop} {P : σ → ι → Prop}
    (hstep : ∀ done s event, I done s → P s event →
      I (done ++ [event]) (step s event))
    {events : List ι} {s : σ} (hstart : I [] s)
    (h : EveryStep step s events P) : I events (events.foldl step s) := by
  induction events using List.reverseRecOn with
  | nil => exact hstart
  | append_singleton done event ih =>
      rw [List.foldl_append]
      exact hstep done _ event (ih (h.restrict (List.prefix_append _ _)))
        (h done event (List.prefix_refl _))

/-- A guard that does not read the state is a property of the events. -/
theorem everyStep_iff_forall_mem {P : ι → Prop} {events : List ι} {s : σ} :
    EveryStep step s events (fun _ event => P event) ↔
      ∀ event ∈ events, P event := by
  constructor
  · intro h event hmem
    obtain ⟨done, rest, rfl⟩ := List.append_of_mem hmem
    exact h done event ⟨rest, by simp⟩
  · intro h done event hdone
    exact h event (hdone.subset (by simp))

/-- Among the runs that meet `G`, two guards that agree at every step hold of
the same runs. -/
theorem EveryStep.congr {I : σ → Prop} {G P R : σ → ι → Prop}
    (hstep : ∀ s event, I s → G s event → I (step s event))
    (hiff : ∀ s event, I s → G s event → (P s event ↔ R s event))
    {events : List ι} {s : σ} (hstart : I s) (hG : EveryStep step s events G) :
    EveryStep step s events P ↔ EveryStep step s events R := by
  induction events generalizing s with
  | nil => simp only [everyStep_nil]
  | cons event events ih =>
      obtain ⟨hfirst, hlater⟩ := everyStep_cons.mp hG
      rw [everyStep_cons, everyStep_cons, hiff s event hstart hfirst,
        ih (hstep s event hstart hfirst) hlater]

/-- The same for all runs. -/
theorem everyStep_congr {I : σ → Prop} {P R : σ → ι → Prop}
    (hstep : ∀ s event, I s → I (step s event))
    (hiff : ∀ s event, I s → (P s event ↔ R s event))
    {events : List ι} {s : σ} (hstart : I s) :
    EveryStep step s events P ↔ EveryStep step s events R :=
  EveryStep.congr (G := fun _ _ => True) (fun s event hI _ => hstep s event hI)
    (fun s event hI _ => hiff s event hI) hstart fun _ _ _ => trivial

/-- A guarded run meets the invariant in all of its states. -/
theorem EveryStep.everyState {I : σ → Prop} {P : σ → ι → Prop}
    (hstep : ∀ s event, I s → P s event → I (step s event))
    {events : List ι} {s : σ} (hstart : I s)
    (h : EveryStep step s events P) : EveryState step s events I := by
  intro done hdone
  exact (h.restrict hdone).invariant hstep hstart

/-- Among the runs that meet `G`, a guard that is enough for the invariant, and
whose first failure shows in the next state, holds of a run exactly when `Q`
holds in all of its states. -/
theorem EveryStep.everyState_iff {I Q : σ → Prop} {G P : σ → ι → Prop}
    (hstep : ∀ s event, I s → G s event → P s event → I (step s event))
    (hshows : ∀ s, I s → Q s)
    (hfails : ∀ s event, I s → G s event → ¬P s event → ¬Q (step s event))
    {events : List ι} {s : σ} (hstart : I s) (hG : EveryStep step s events G) :
    EveryState step s events Q ↔ EveryStep step s events P := by
  constructor
  · intro h
    induction events generalizing s with
    | nil => exact everyStep_nil
    | cons event events ih =>
        obtain ⟨-, hrest⟩ := everyState_cons.mp h
        obtain ⟨hfirst, hlater⟩ := everyStep_cons.mp hG
        have hguard : P s event := by
          by_contra hnot
          exact hfails s event hstart hfirst hnot (hrest [] List.nil_prefix)
        exact everyStep_cons.mpr
          ⟨hguard, ih (hstep s event hstart hfirst hguard) hlater hrest⟩
  · intro h done hdone
    refine hshows _ ((hG.and h).everyState (I := I) ?_ hstart done hdone)
    rintro s event hI ⟨hfirst, hguard⟩
    exact hstep s event hI hfirst hguard

/-- The same for all runs. -/
theorem everyState_iff_everyStep {I Q : σ → Prop} {P : σ → ι → Prop}
    (hstep : ∀ s event, I s → P s event → I (step s event))
    (hshows : ∀ s, I s → Q s)
    (hfails : ∀ s event, I s → ¬P s event → ¬Q (step s event))
    {events : List ι} {s : σ} (hstart : I s) :
    EveryState step s events Q ↔ EveryStep step s events P :=
  EveryStep.everyState_iff (G := fun _ _ => True)
    (fun s event hI _ => hstep s event hI) hshows
    (fun s event hI _ => hfails s event hI) hstart fun _ _ _ => trivial

/-! ## Watching a run -/

/-- The machine with a ghost value beside its state: `note` brings the value up
to date at every event, and the machine never reads it. -/
def observe {γ : Type*} (step : σ → ι → σ) (note : σ → γ → ι → γ)
    (watched : σ × γ) (event : ι) : σ × γ :=
  (step watched.1 event, note watched.1 watched.2 event)

@[simp] theorem fst_foldl_observe {γ : Type*} (note : σ → γ → ι → γ)
    (events : List ι) (watched : σ × γ) :
    (events.foldl (observe step note) watched).1 =
      events.foldl step watched.1 := by
  induction events generalizing watched with
  | nil => rfl
  | cons event events ih => exact ih _

/-- The invariant rule for the state and the ghost value together. -/
theorem observe_invariant {γ : Type*} {note : σ → γ → ι → γ}
    {I : σ → γ → Prop}
    (hstep : ∀ s g event, I s g → I (step s event) (note s g event))
    (events : List ι) {s : σ} {g : γ} (hstart : I s g) :
    I (events.foldl step s) (events.foldl (observe step note) (s, g)).2 := by
  have hwatched : I (events.foldl (observe step note) (s, g)).1
      (events.foldl (observe step note) (s, g)).2 :=
    foldl_invariant (I := fun watched : σ × γ => I watched.1 watched.2)
      (fun _ event h => hstep _ _ event h) events hstart
  rwa [fst_foldl_observe] at hwatched

end Sponge.Support
