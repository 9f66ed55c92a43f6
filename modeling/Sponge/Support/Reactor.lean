import Mathlib.Data.Set.Insert
import Mathlib.Logic.Relation

/-!
# Reactors

A reactor is a program made of rules that work on one world.  A rule that is
installed can be armed when its guard holds; an armed rule may be called, once,
at any later time, when its guard need not hold any more.  A rule whose source
has expired is cancelled: it gets a last call and is never installed again, and
so is an armed rule that hangs up.

The order in which this happens is left open.  An invariant of the reactor is
therefore one of every scheduler for it.
-/

namespace Sponge.Support

structure Reactor (ι W : Type*) where
  expired : ι → W → Prop
  interest : ι → W → Prop
  callback : ι → W → W
  cancel : ι → W → W

namespace Reactor

variable {ι W : Type*}

structure State (ι W : Type*) where
  installed : Set ι
  armed : Set ι
  world : W

/-- What can happen next, when only the rules of `H` may hang up. -/
inductive Step (r : Reactor ι W) (H : ι → Prop) :
    State ι W → State ι W → Prop
  | expire {s : State ι W} {i : ι} (hinstalled : i ∈ s.installed)
      (hexpired : r.expired i s.world) :
      Step r H s
        ⟨s.installed \ {i}, s.armed \ {i}, r.cancel i s.world⟩
  | hangUp {s : State ι W} {i : ι} (hinstalled : i ∈ s.installed)
      (harmed : i ∈ s.armed) (hhangs : H i) :
      Step r H s
        ⟨s.installed \ {i}, s.armed \ {i}, r.cancel i s.world⟩
  | arm {s : State ι W} {i : ι} (hinstalled : i ∈ s.installed)
      (hlive : ¬r.expired i s.world) (hinterest : r.interest i s.world) :
      Step r H s ⟨s.installed, insert i s.armed, s.world⟩
  | call {s : State ι W} {i : ι} (hinstalled : i ∈ s.installed)
      (harmed : i ∈ s.armed) :
      Step r H s ⟨s.installed, s.armed \ {i}, r.callback i s.world⟩
  | disarm {s : State ι W} : Step r H s ⟨s.installed, ∅, s.world⟩

/-- A state that can come about from another. -/
abbrev Reaches (r : Reactor ι W) (H : ι → Prop) :
    State ι W → State ι W → Prop :=
  Relation.ReflTransGen (Step r H)

/-- `I` is kept by all rules, and `A i` holds from the moment in which the rule
`i` is armed until it is called. -/
structure Invariant (r : Reactor ι W) (H : ι → Prop)
    (I : Set ι → W → Prop) (A : ι → W → Prop) : Prop where
  cancel : ∀ {installed : Set ι} {w : W} {i : ι}, I installed w →
    i ∈ installed → r.expired i w ∨ H i → I (installed \ {i}) (r.cancel i w)
  arm : ∀ {installed : Set ι} {w : W} {i : ι}, I installed w →
    i ∈ installed → ¬r.expired i w → r.interest i w → A i w
  call : ∀ {installed : Set ι} {w : W} {i : ι}, I installed w →
    i ∈ installed → A i w → I installed (r.callback i w)
  armed_cancel : ∀ {installed : Set ι} {w : W} {i j : ι}, I installed w →
    j ≠ i → A j w → A j (r.cancel i w)
  armed_call : ∀ {installed : Set ι} {w : W} {i j : ι}, I installed w →
    j ≠ i → A j w → A j (r.callback i w)

section Rule

variable {r : Reactor ι W} {H : ι → Prop} {I : Set ι → W → Prop}
  {A : ι → W → Prop}

/-- The invariant in a state, armed rules included. -/
def Holds (I : Set ι → W → Prop) (A : ι → W → Prop) (s : State ι W) : Prop :=
  I s.installed s.world ∧ ∀ i ∈ s.armed, A i s.world

theorem Invariant.step (h : Invariant r H I A) {s s' : State ι W}
    (hstep : Step r H s s') (hs : Holds I A s) : Holds I A s' := by
  obtain ⟨hI, hA⟩ := hs
  cases hstep with
  | expire hinstalled hexpired =>
      refine ⟨h.cancel hI hinstalled (Or.inl hexpired), ?_⟩
      rintro j ⟨hj, hne⟩
      exact h.armed_cancel hI hne (hA j hj)
  | hangUp hinstalled harmed hhangs =>
      refine ⟨h.cancel hI hinstalled (Or.inr hhangs), ?_⟩
      rintro j ⟨hj, hne⟩
      exact h.armed_cancel hI hne (hA j hj)
  | arm hinstalled hlive hinterest =>
      refine ⟨hI, ?_⟩
      rintro j (rfl | hj)
      · exact h.arm hI hinstalled hlive hinterest
      · exact hA j hj
  | call hinstalled harmed =>
      refine ⟨h.call hI hinstalled (hA _ harmed), ?_⟩
      rintro j ⟨hj, hne⟩
      exact h.armed_call hI hne (hA j hj)
  | disarm =>
      refine ⟨hI, ?_⟩
      intro j hj
      cases hj

/-- The invariant rule. -/
theorem Invariant.reaches (h : Invariant r H I A) {s s' : State ι W}
    (hreaches : Reaches r H s s') (hs : Holds I A s) : Holds I A s' := by
  induction hreaches with
  | refl => exact hs
  | tail _ hstep ih => exact h.step hstep ih

end Rule

end Reactor
end Sponge.Support
