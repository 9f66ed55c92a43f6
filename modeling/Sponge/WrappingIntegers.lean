import Mathlib.Data.Nat.ModEq

/-!
# Wrapping sequence numbers

A 32-bit sequence number is an absolute one shifted by the initial sequence
number and reduced modulo `2 ^ 32`.  `unwrap` goes back by choosing the
absolute number closest to a checkpoint.

Absolute numbers are 64-bit in the source and natural numbers here.  For
checkpoints below `2 ^ 64 - 2 ^ 32` no sum in `unwrap` leaves the 64-bit range,
and the one difference that does, `checkpoint - ret` for `ret > checkpoint`, is
brought back by the addition that follows it; `WrappingIntegers.Nearest` proves
this for the 64-bit words.
-/

namespace Sponge

structure WrappingInt32 where
  rawValue : UInt32
deriving DecidableEq

namespace WrappingInt32

/-- The point `b` steps before `a`. -/
def sub (a : WrappingInt32) (b : UInt32) : WrappingInt32 :=
  ⟨a.rawValue - b⟩

end WrappingInt32

def wrap (n : ℕ) (isn : WrappingInt32) : WrappingInt32 :=
  ⟨UInt32.ofNat (isn.rawValue.toNat + n)⟩

def unwrap (n isn : WrappingInt32) (checkpoint : ℕ) : ℕ :=
  let num := (2 ^ 64 + n.rawValue.toNat - isn.rawValue.toNat) % 2 ^ 32
  let base := checkpoint / 2 ^ 32 * 2 ^ 32
  let ret := base + num
  if checkpoint < ret then
    if 2 ^ 32 - 1 < ret ∧ checkpoint + 2 ^ 32 - ret < ret - checkpoint then
      ret - 2 ^ 32
    else
      ret
  else if ret + 2 ^ 32 - checkpoint < checkpoint - ret then
    ret + 2 ^ 32
  else
    ret

/-- Two absolute numbers less than half the 32-bit range apart. -/
def Near (a b : ℕ) : Prop :=
  a < b + 2 ^ 31 ∧ b < a + 2 ^ 31

instance (a b : ℕ) : Decidable (Near a b) := by
  unfold Near
  infer_instance

@[simp] theorem toNat_wrap (n : ℕ) (isn : WrappingInt32) :
    (wrap n isn).rawValue.toNat = (isn.rawValue.toNat + n) % 2 ^ 32 := by
  simp [wrap]

@[simp] theorem wrap_zero (isn : WrappingInt32) : wrap 0 isn = isn := by
  simp [wrap]

/-- The distance from the initial number recovers the low 32 bits. -/
theorem wrap_sub_isn (n : ℕ) (isn : WrappingInt32) :
    (2 ^ 64 + (wrap n isn).rawValue.toNat - isn.rawValue.toNat) % 2 ^ 32 =
      n % 2 ^ 32 := by
  have hisn := isn.rawValue.toNat_lt
  rw [toNat_wrap]
  omega

/-- Unwrapping inverts wrapping for numbers close to the checkpoint. -/
theorem unwrap_wrap {a checkpoint : ℕ} (isn : WrappingInt32)
    (hnear : Near a checkpoint) :
    unwrap (wrap a isn) isn checkpoint = a := by
  obtain ⟨hbelow, habove⟩ := hnear
  unfold unwrap
  rw [wrap_sub_isn]
  -- `a` and the checkpoint agree in their upper halves or differ by one there
  have ha := Nat.div_add_mod a (2 ^ 32)
  have hc := Nat.div_add_mod checkpoint (2 ^ 32)
  have hamod := Nat.mod_lt a (show 0 < 2 ^ 32 by decide)
  have hcmod := Nat.mod_lt checkpoint (show 0 < 2 ^ 32 by decide)
  dsimp only
  split_ifs <;> omega

theorem wrap_left_injective (n : ℕ) : Function.Injective (wrap n) := by
  intro a b h
  have hraw := congrArg (fun x => x.rawValue.toNat) h
  simp only [toNat_wrap] at hraw
  have ha := a.rawValue.toNat_lt
  have hb := b.rawValue.toNat_lt
  obtain ⟨a⟩ := a
  obtain ⟨b⟩ := b
  congr 1
  apply UInt32.toNat_inj.mp
  dsimp only at hraw ha hb
  omega

end Sponge
