import Mathlib.Algebra.Order.Group.Abs
import Mathlib.Algebra.Order.Ring.Int
import Sponge.WrappingIntegers

/-!
# Unwrapping chooses the nearest number

The absolute numbers that wrap to a sequence number form a residue class modulo
`2 ^ 32`; `unwrap` answers the member of the class nearest to the checkpoint.
This is proved on natural numbers and carried over to the 64-bit words on which
the source computes, all of whose sums and differences are modulo `2 ^ 64`.
-/

namespace Sponge

/-! ## The residue class of a sequence number -/

theorem wrap_eq_iff (a : ℕ) (n isn : WrappingInt32) :
    wrap a isn = n ↔
      a % 2 ^ 32 =
        (2 ^ 64 + n.rawValue.toNat - isn.rawValue.toNat) % 2 ^ 32 := by
  constructor
  · rintro rfl
    exact (wrap_sub_isn a isn).symm
  · intro h
    have hn := n.rawValue.toNat_lt
    have hisn := isn.rawValue.toNat_lt
    have hraw : (wrap a isn).rawValue.toNat = n.rawValue.toNat := by
      rw [toNat_wrap]
      omega
    obtain ⟨n⟩ := n
    exact congrArg WrappingInt32.mk (UInt32.toNat_inj.mp hraw)

/-- `unwrap` answers a number of the class that is at most half the 32-bit
range away from the checkpoint, except that the smallest of the class may be
further above it. -/
theorem unwrap_spec (n isn : WrappingInt32) (checkpoint : ℕ) :
    wrap (unwrap n isn checkpoint) isn = n ∧
      checkpoint ≤ unwrap n isn checkpoint + 2 ^ 31 ∧
      (unwrap n isn checkpoint ≤ checkpoint + 2 ^ 31 ∨
        unwrap n isn checkpoint < 2 ^ 32) := by
  have hc := Nat.div_add_mod checkpoint (2 ^ 32)
  have hcmod := Nat.mod_lt checkpoint (show 0 < 2 ^ 32 by decide)
  rw [wrap_eq_iff]
  unfold unwrap
  dsimp only
  generalize hnum :
    (2 ^ 64 + n.rawValue.toNat - isn.rawValue.toNat) % 2 ^ 32 = num
  have hlt : num < 2 ^ 32 := hnum ▸ Nat.mod_lt _ (by decide)
  split_ifs <;> omega

/-- No number that wraps to `n` is closer to the checkpoint. -/
theorem unwrap_closest {n isn : WrappingInt32} (checkpoint : ℕ) {a : ℕ}
    (ha : wrap a isn = n) :
    |(unwrap n isn checkpoint : ℤ) - checkpoint| ≤
      |(a : ℤ) - checkpoint| := by
  obtain ⟨hwrap, hbelow, habove⟩ := unwrap_spec n isn checkpoint
  have hclass := ((wrap_eq_iff _ _ _).mp hwrap).trans
    ((wrap_eq_iff _ _ _).mp ha).symm
  apply abs_le.mpr
  rcases abs_cases ((a : ℤ) - checkpoint) with ⟨habs, _⟩ | ⟨habs, _⟩ <;>
    rw [habs] <;> constructor <;> omega

/-! ## On 64-bit words -/

namespace Word64

def wrap (n : UInt64) (isn : WrappingInt32) : WrappingInt32 :=
  let ret := isn.rawValue.toUInt64
  ⟨(ret + n).toUInt32⟩

def unwrap (n isn : WrappingInt32) (checkpoint : UInt64) : UInt64 :=
  let num := n.rawValue.toUInt64 - isn.rawValue.toUInt64
  let num := num &&& 0xffffffff
  let base := checkpoint >>> 32 <<< 32
  let ret := base + num
  let one : UInt64 := 1
  if ret > checkpoint then
    if ret > 0xffffffff ∧
        ret - checkpoint > checkpoint - ret + (one <<< 32) then
      ret - (one <<< 32)
    else
      ret
  else if checkpoint - ret > ret + (one <<< 32) - checkpoint then
    ret + (one <<< 32)
  else
    ret

theorem wrap_eq (n : UInt64) (isn : WrappingInt32) :
    wrap n isn = Sponge.wrap n.toNat isn := by
  apply congrArg WrappingInt32.mk
  apply UInt32.toNat_inj.mp
  simp

theorem toNat_num (n isn : WrappingInt32) :
    (n.rawValue.toUInt64 - isn.rawValue.toUInt64 &&& 0xffffffff).toNat =
      (2 ^ 64 + n.rawValue.toNat - isn.rawValue.toNat) % 2 ^ 32 := by
  have hn := n.rawValue.toNat_lt
  have hisn := isn.rawValue.toNat_lt
  have hmask := Nat.and_two_pow_sub_one_eq_mod
    (n.rawValue.toUInt64 - isn.rawValue.toUInt64).toNat 32
  rw [UInt64.toNat_and]
  apply hmask.trans
  rw [UInt64.toNat_sub, UInt32.toNat_toUInt64, UInt32.toNat_toUInt64]
  omega

theorem toNat_base (checkpoint : UInt64) :
    (checkpoint >>> 32 <<< 32).toNat =
      checkpoint.toNat / 2 ^ 32 * 2 ^ 32 := by
  have hlt := checkpoint.toNat_lt
  rw [UInt64.toNat_shiftLeft, UInt64.toNat_shiftRight]
  simp [Nat.shiftLeft_eq, Nat.shiftRight_eq_div_pow]
  omega

/-- Below `2 ^ 64 - 2 ^ 32` the words compute what the natural numbers do. -/
theorem toNat_unwrap (n isn : WrappingInt32) {checkpoint : UInt64}
    (hcheckpoint : checkpoint.toNat < 2 ^ 64 - 2 ^ 32) :
    (unwrap n isn checkpoint).toNat =
      Sponge.unwrap n isn checkpoint.toNat := by
  obtain ⟨ret, hret⟩ : ∃ ret, checkpoint >>> 32 <<< 32 +
      (n.rawValue.toUInt64 - isn.rawValue.toUInt64 &&& 0xffffffff) = ret :=
    ⟨_, rfl⟩
  have hlt := Nat.mod_lt (2 ^ 64 + n.rawValue.toNat - isn.rawValue.toNat)
    (show 0 < 2 ^ 32 by decide)
  have hval : ret.toNat = checkpoint.toNat / 2 ^ 32 * 2 ^ 32 +
      (2 ^ 64 + n.rawValue.toNat - isn.rawValue.toNat) % 2 ^ 32 := by
    rw [← hret, UInt64.toNat_add, toNat_base, toNat_num]
    omega
  have hone : ((1 : UInt64) <<< 32).toNat = 2 ^ 32 := rfl
  have hmax : (0xffffffff : UInt64).toNat = 2 ^ 32 - 1 := rfl
  simp only [unwrap, Sponge.unwrap, hret, ← hval, gt_iff_lt,
    UInt64.lt_iff_toNat_lt, UInt64.toNat_add, UInt64.toNat_sub, hone, hmax,
    apply_ite UInt64.toNat]
  -- the only difference that wraps around, `checkpoint - ret` for a larger
  -- `ret`, is brought back by the `2 ^ 32` added to it
  have hroom : ret.toNat + 2 ^ 32 < 2 ^ 64 := by omega
  have hbelow : ret.toNat < checkpoint.toNat + 2 ^ 32 := by omega
  have habove : checkpoint.toNat < ret.toNat + 2 ^ 32 := by omega
  clear hval hlt
  split_ifs <;> omega

/-- **`unwrap` is the nearest preimage of `wrap`.**  For every checkpoint below
`2 ^ 64 - 2 ^ 32` it answers a number that wraps to `n`, no 64-bit number that
wraps to `n` is closer to the checkpoint, and a number less than half the 32-bit
range away from the checkpoint is recovered exactly. -/
theorem unwrap_nearest (n isn : WrappingInt32) {checkpoint : UInt64}
    (hcheckpoint : checkpoint.toNat < 2 ^ 64 - 2 ^ 32) :
    let r := unwrap n isn checkpoint
    wrap r isn = n ∧
      (∀ r', wrap r' isn = n →
        |(r.toNat : ℤ) - checkpoint.toNat| ≤
          |(r'.toNat : ℤ) - checkpoint.toNat|) ∧
      ∀ a : UInt64, |(a.toNat : ℤ) - checkpoint.toNat| < 2 ^ 31 →
        unwrap (wrap a isn) isn checkpoint = a := by
  intro r
  have hr : r.toNat = Sponge.unwrap n isn checkpoint.toNat :=
    toNat_unwrap n isn hcheckpoint
  refine ⟨?_, ?_, ?_⟩
  · rw [wrap_eq, hr]
    exact (unwrap_spec n isn checkpoint.toNat).1
  · intro r' hr'
    rw [wrap_eq] at hr'
    rw [hr]
    exact unwrap_closest checkpoint.toNat hr'
  · intro a ha
    have hnear : Near a.toNat checkpoint.toNat := by
      have := abs_lt.mp ha
      constructor <;> omega
    apply UInt64.toNat_inj.mp
    rw [toNat_unwrap _ _ hcheckpoint, wrap_eq, unwrap_wrap isn hnear]

/-- Just above the middle of the first wrap the checkpoint pulls the answer
into the second. -/
theorem unwrap_nearest_second_wrap :
    unwrap ⟨5⟩ ⟨3⟩ 0x80000003 = 0x100000002 ∧
      wrap (unwrap ⟨5⟩ ⟨3⟩ 0x80000003) ⟨3⟩ = ⟨5⟩ :=
  ⟨by decide, (unwrap_nearest ⟨5⟩ ⟨3⟩ (by decide)).1⟩

end Word64
end Sponge
