import Mathlib.Logic.Function.Iterate

/-!
# Loops that come to an end

A loop whose body may fail runs for at most a given number of turns.  That it
returns is shown from what its turns lead to: `LeadsTo k P Q` says that from `P`
a state with `Q` is reached after at most `k` turns.  Nothing here depends on
what the states are.
-/

namespace Sponge.Support

variable {σ ε : Type*}

/-- The loop `while (cond) body`, for at most the given number of turns: `none`
if they do not suffice. -/
def whileLoop (cond : σ → Bool) (body : σ → Except ε σ) :
    ℕ → σ → Option (Except ε σ)
  | 0, _ => none
  | fuel + 1, s =>
      if cond s then
        match body s with
        | .error e => some (.error e)
        | .ok s => whileLoop cond body fuel s
      else some (.ok s)

/-- From `P` a state with `Q` is reached after at most `k` steps. -/
def LeadsTo (next : σ → σ) (k : ℕ) (P Q : σ → Prop) : Prop :=
  ∀ s, P s → ∃ j ≤ k, Q (next^[j] s)

variable {next : σ → σ} {P Q R : σ → Prop} {k k' : ℕ}

theorem leadsTo_next (h : ∀ s, P s → Q (next s)) : LeadsTo next 1 P Q :=
  fun s hs => ⟨1, Nat.le_refl _, h s hs⟩

theorem LeadsTo.trans (h : LeadsTo next k P Q) (h' : LeadsTo next k' Q R) :
    LeadsTo next (k + k') P R := by
  intro s hs
  obtain ⟨j, hj, hQ⟩ := h s hs
  obtain ⟨j', hj', hR⟩ := h' _ hQ
  refine ⟨j' + j, by omega, ?_⟩
  rw [Function.iterate_add_apply]
  exact hR

/-- The rule for a rank that every step lowers until `Q` holds. -/
theorem leadsTo_of_rank (rank : σ → ℕ)
    (h : ∀ s, P s → Q s ∨ P (next s) ∧ rank (next s) < rank s)
    (hle : ∀ s, P s → rank s ≤ k) : LeadsTo next k P Q := by
  have hreach : ∀ r s, rank s ≤ r → P s → ∃ j ≤ r, Q (next^[j] s) := by
    intro r
    induction r with
    | zero =>
        intro s hr hs
        rcases h s hs with hQ | ⟨-, hlt⟩
        · exact ⟨0, Nat.le_refl _, hQ⟩
        · omega
    | succ r ih =>
        intro s hr hs
        rcases h s hs with hQ | ⟨hP, hlt⟩
        · exact ⟨0, Nat.zero_le _, hQ⟩
        · obtain ⟨j, hj, hQ⟩ := ih (next s) (by omega) hP
          exact ⟨j + 1, by omega, hQ⟩
  intro s hs
  exact hreach k s (hle s hs) hs

/-- A loop whose turns succeed and lead to the end of the loop returns, and does
so in a state that its turns reach. -/
theorem whileLoop_returns (cond : σ → Bool) {body : σ → Except ε σ}
    (hbody : ∀ s, P s → body s = .ok (next s) ∧ P (next s)) {s : σ} (hs : P s)
    (hend : ∃ j ≤ k, cond (next^[j] s) = false) {fuel : ℕ}
    (hfuel : k < fuel) :
    ∃ s', whileLoop cond body fuel s = some (.ok s') ∧ P s' ∧
      cond s' = false := by
  induction fuel generalizing s k with
  | zero => omega
  | succ fuel ih =>
      unfold whileLoop
      cases hcond : cond s with
      | false => exact ⟨s, by simp, hs, hcond⟩
      | true =>
          obtain ⟨hok, hnext⟩ := hbody s hs
          obtain ⟨j, hj, hfalse⟩ := hend
          cases j with
          | zero =>
              rw [Function.iterate_zero_apply, hcond] at hfalse
              cases hfalse
          | succ j =>
              obtain ⟨s', hreturns, hs'⟩ := ih hnext (k := k - 1)
                ⟨j, by omega, hfalse⟩ (by omega)
              exact ⟨s', by simpa [hok] using hreturns, hs'⟩

end Sponge.Support
