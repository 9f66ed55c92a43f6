import Mathlib.Data.List.Basic

/-!
# The calls of a run

A machine that answers every event with an output leaves a trace: the list of
its calls, each with the states around it.  This module has the two rules for
statements about a trace: one about each call, and one about each call and any
later one.
-/

namespace Sponge.Support

variable {σ ι ω : Type*}

/-- A call: the event, its output, and the states before and after it. -/
structure Call (σ ι ω : Type*) where
  before : σ
  event : ι
  after : σ
  output : ω

/-- The call of a machine in the state `s`. -/
def Call.of (call : σ → ι → σ × ω) (s : σ) (event : ι) : Call σ ι ω where
  before := s
  event := event
  after := (call s event).1
  output := (call s event).2

/-- The calls of a run from `s`. -/
def trace (call : σ → ι → σ × ω) : σ → List ι → List (Call σ ι ω)
  | _, [] => []
  | s, event :: events =>
      Call.of call s event :: trace call (call s event).1 events

variable {call : σ → ι → σ × ω} {G : ι → Prop}

/-- What holds of every call in a state that meets the invariant holds of all
calls of a run. -/
theorem forall_mem_trace {I : σ → Prop} {P : Call σ ι ω → Prop}
    (hstep : ∀ s event, I s → G event → I (call s event).1)
    (hcall : ∀ s event, I s → G event → P (Call.of call s event))
    {events : List ι} {s : σ} (hstart : I s)
    (hG : ∀ event ∈ events, G event) :
    ∀ c ∈ trace call s events, P c := by
  induction events generalizing s with
  | nil => simp [trace]
  | cons event events ih =>
      rw [List.forall_mem_cons] at hG
      rw [trace, List.forall_mem_cons]
      exact ⟨hcall s event hstart hG.1, ih (hstep s event hstart hG.1) hG.2⟩

/-- The same without an invariant. -/
theorem forall_mem_trace_of_forall {P : Call σ ι ω → Prop}
    (hcall : ∀ s event, G event → P (Call.of call s event))
    {events : List ι} (s : σ) (hG : ∀ event ∈ events, G event) :
    ∀ c ∈ trace call s events, P c :=
  forall_mem_trace (I := fun _ => True) (fun _ _ _ _ => trivial)
    (fun s event _ => hcall s event) trivial hG

/-- If every call establishes `K` for the state after it, and all later calls
keep it, then what follows from it relates every call with all later ones. -/
theorem pairwise_trace {K : Call σ ι ω → σ → Prop}
    {R : Call σ ι ω → Call σ ι ω → Prop}
    (hmade : ∀ s event, G event → K (Call.of call s event) (call s event).1)
    (hkept : ∀ c s event, K c s → G event → K c (call s event).1)
    (hcall : ∀ c s event, K c s → G event → R c (Call.of call s event))
    {events : List ι} (s : σ) (hG : ∀ event ∈ events, G event) :
    (trace call s events).Pairwise R := by
  induction events generalizing s with
  | nil => exact List.Pairwise.nil
  | cons event events ih =>
      rw [List.forall_mem_cons] at hG
      rw [trace, List.pairwise_cons]
      refine ⟨?_, ih _ hG.2⟩
      exact forall_mem_trace (hkept _) (hcall _) (hmade s event hG.1) hG.2

end Sponge.Support
