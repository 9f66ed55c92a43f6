import Mathlib.Data.Nat.ModEq

/-!
# Arithmetic of unsigned 64-bit sizes

Sizes are natural numbers; sums and differences that leave the range of 64 bits
wrap around.
-/

namespace Sponge.Support

def addSize (a b : ℕ) : ℕ := (a + b) % 2 ^ 64

def subSize (a b : ℕ) : ℕ :=
  if b ≤ a then a - b else 2 ^ 64 + a - b

theorem addSize_le (a b : ℕ) : addSize a b ≤ a + b :=
  Nat.mod_le _ _

theorem addSize_of_lt {a b : ℕ} (h : a + b < 2 ^ 64) : addSize a b = a + b :=
  Nat.mod_eq_of_lt h

theorem subSize_of_le {a b : ℕ} (h : b ≤ a) : subSize a b = a - b :=
  if_pos h

end Sponge.Support
