import Mathlib.Data.List.Basic
import Mathlib.Data.Nat.ModEq

/-!
# Reading a circular store

`ringRead` walks `n` cells of a store of `cap` used cells from a start index,
wrapping at `cap`.  The lemmas say how a walk splits, and how writing the cell
just after a walk extends it.  A walk that starts at a reduced index and visits
at most `cap` cells visits each cell once, which is what makes the last lemma
true at every wrap position.
-/

namespace Sponge.Support

variable {α : Type*}

/-- The `n` elements found from index `idx` on; `d` stands for a cell outside
the store. -/
def ringRead (store : List α) (d : α) (cap : ℕ) : ℕ → ℕ → List α
  | _, 0 => []
  | idx, n + 1 =>
      store.getD idx d :: ringRead store d cap ((idx + 1) % cap) n

variable {store : List α} {d : α} {cap : ℕ}

@[simp] theorem length_ringRead (idx n : ℕ) :
    (ringRead store d cap idx n).length = n := by
  induction n generalizing idx with
  | zero => rfl
  | succ n ih => simp [ringRead, ih]

/-- A walk of `m + n` cells is a walk of `m` cells and then one of `n`. -/
theorem ringRead_add {idx : ℕ} (hidx : idx % cap = idx) (m n : ℕ) :
    ringRead store d cap idx (m + n) =
      ringRead store d cap idx m ++
        ringRead store d cap ((idx + m) % cap) n := by
  induction m generalizing idx with
  | zero => simp [ringRead, hidx]
  | succ m ih =>
      have hnext := @ih ((idx + 1) % cap) (Nat.mod_mod _ _)
      have hstart : ((idx + 1) % cap + m) % cap = (idx + (m + 1)) % cap := by
        rw [Nat.mod_add_mod]
        congr 1
        omega
      rw [show m + 1 + n = (m + n) + 1 by omega]
      simp only [ringRead, List.cons_append, List.cons.injEq, true_and]
      rw [hnext, hstart]

/-- Cells at distance less than `cap` from a common index are distinct. -/
theorem add_mod_ne_add_mod {idx i j : ℕ} (hij : i < j) (hj : j < i + cap) :
    (idx + i) % cap ≠ (idx + j) % cap := by
  intro heq
  have hmod : i ≡ j [MOD cap] := Nat.ModEq.add_left_cancel' idx heq
  have hdvd : cap ∣ j - i := (Nat.modEq_iff_dvd' hij.le).mp hmod
  have hle := Nat.le_of_dvd (by omega) hdvd
  omega

theorem ringRead_set_of_forall_ne {p idx n : ℕ} {c : α}
    (hidx : idx % cap = idx) (h : ∀ i < n, (idx + i) % cap ≠ p) :
    ringRead (store.set p c) d cap idx n = ringRead store d cap idx n := by
  induction n generalizing idx with
  | zero => rfl
  | succ n ih =>
      have hfirst : idx ≠ p := by
        simpa [hidx] using h 0 (Nat.succ_pos n)
      have hrest : ∀ i < n, ((idx + 1) % cap + i) % cap ≠ p := by
        intro i hi
        rw [Nat.mod_add_mod, Nat.add_assoc, Nat.add_comm 1 i]
        exact h (i + 1) (by omega)
      simp only [ringRead]
      rw [ih (Nat.mod_mod _ _) hrest]
      congr 1
      simp [List.getD_eq_getElem?_getD, List.getElem?_set_ne hfirst.symm]

/-- Writing the cell after a walk that leaves at least one cell free extends
the walk by the written element. -/
theorem ringRead_set_succ {idx n : ℕ} {c : α} (hidx : idx % cap = idx)
    (hn : n < cap) (hstore : cap ≤ store.length) :
    ringRead (store.set ((idx + n) % cap) c) d cap idx (n + 1) =
      ringRead store d cap idx n ++ [c] := by
  have hlt : (idx + n) % cap < store.length :=
    lt_of_lt_of_le (Nat.mod_lt _ (by omega)) hstore
  rw [ringRead_add hidx]
  congr 1
  · apply ringRead_set_of_forall_ne hidx
    intro i hi
    exact add_mod_ne_add_mod hi (by omega)
  · simp [ringRead, List.getD_eq_getElem?_getD, hlt]

end Sponge.Support
