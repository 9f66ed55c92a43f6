import Mathlib.Data.List.Basic

/-!
# Computations that may fail, against functions that do not

A computation on concrete data refines a function on what the data show if it
never fails and its result shows the value of the function.  The rules follow the
control structure of the computation; a branch is entered with its condition, so
that what may fail in it can be shown not to.
-/

namespace Sponge.Support

universe u

variable {β δ : Type u} {γ ζ ε : Type*} {shows : β → γ} {shows' : δ → ζ}

/-- The computation succeeds, and its result shows `y`. -/
def Yields (shows : β → γ) (x : Except ε β) (y : γ) : Prop :=
  ∃ b, x = .ok b ∧ shows b = y

theorem yields_id {x : Except ε β} {y : β} : Yields id x y ↔ x = .ok y := by
  constructor
  · rintro ⟨b, hx, rfl⟩
    exact hx
  · intro h
    exact ⟨y, h, rfl⟩

theorem Yields.ok {b : β} {y : γ} (h : shows b = y) :
    Yields shows (.ok b : Except ε β) y :=
  ⟨b, rfl, h⟩

theorem Yields.ite {c : Prop} [Decidable c] {x x' : Except ε β} {y y' : γ}
    (h : c → Yields shows x y) (h' : ¬c → Yields shows x' y') :
    Yields shows (if c then x else x') (if c then y else y') := by
  by_cases hc : c
  · rw [if_pos hc, if_pos hc]
    exact h hc
  · rw [if_neg hc, if_neg hc]
    exact h' hc

theorem Yields.bind {x : Except ε β} {y : γ} (h : Yields shows x y)
    {k : β → Except ε δ} {z : ζ}
    (hk : ∀ b, shows b = y → Yields shows' (k b) z) :
    Yields shows' (x >>= k) z := by
  obtain ⟨b, rfl, hb⟩ := h
  exact hk b hb

end Sponge.Support
