import Mathlib.Data.Nat.ModEq
import Mathlib.Tactic.Ring

/-!
# Numbers in network byte order

A number written as a fixed count of bytes, the most significant one first, and
the number that a string of bytes stands for.
-/

namespace Sponge.Support.BigEndian

/-- The number that the bytes stand for. -/
def decode (bytes : List UInt8) : ℕ :=
  bytes.foldl (fun n byte => n * 256 + byte.toNat) 0

/-- The lowest `len` bytes of `n`. -/
def encode : ℕ → ℕ → List UInt8
  | 0, _ => []
  | len + 1, n => UInt8.ofNat (n / 256 ^ len) :: encode len n

@[simp] theorem length_encode (len n : ℕ) : (encode len n).length = len := by
  induction len with
  | zero => rfl
  | succ len ih => rw [encode, List.length_cons, ih]

theorem foldl_eq_add_decode (bytes : List UInt8) (n : ℕ) :
    bytes.foldl (fun n byte => n * 256 + byte.toNat) n =
      n * 256 ^ bytes.length + decode bytes := by
  unfold decode
  induction bytes generalizing n with
  | nil => simp
  | cons byte rest ih =>
      rw [List.foldl_cons, List.foldl_cons, ih, ih (0 * 256 + byte.toNat),
        List.length_cons, pow_succ]
      ring

theorem decode_cons (byte : UInt8) (rest : List UInt8) :
    decode (byte :: rest) =
      byte.toNat * 256 ^ rest.length + decode rest := by
  rw [decode, List.foldl_cons, foldl_eq_add_decode, Nat.zero_mul, Nat.zero_add]

theorem decode_concat (bytes : List UInt8) (byte : UInt8) :
    decode (bytes ++ [byte]) = decode bytes * 256 + byte.toNat := by
  rw [decode, List.foldl_append]
  rfl

/-- Reading back what was written gives the number, up to the bytes that were
left out. -/
theorem decode_encode (len n : ℕ) : decode (encode len n) = n % 256 ^ len := by
  induction len with
  | zero => rw [pow_zero, Nat.mod_one]; rfl
  | succ len ih =>
      rw [encode, decode_cons, ih, length_encode, UInt8.toNat_ofNat',
        pow_succ 256 len, Nat.mod_mul]
      norm_num
      ring

theorem decode_lt (bytes : List UInt8) : decode bytes < 256 ^ bytes.length := by
  induction bytes with
  | nil => exact Nat.one_pos
  | cons byte rest ih =>
      have hbyte : byte.toNat + 1 ≤ 256 := byte.toNat_lt
      calc decode (byte :: rest)
          = byte.toNat * 256 ^ rest.length + decode rest := decode_cons _ _
        _ < (byte.toNat + 1) * 256 ^ rest.length := by
            rw [Nat.succ_mul]
            exact Nat.add_lt_add_left ih _
        _ ≤ 256 * 256 ^ rest.length := Nat.mul_le_mul_right _ hbyte
        _ = 256 ^ (byte :: rest).length := by
            rw [List.length_cons, pow_succ, Nat.mul_comm]

/-- What lies above the bytes that are written does not matter. -/
theorem encode_mul_add (len k n : ℕ) :
    encode len (k * 256 ^ len + n) = encode len n := by
  induction len generalizing k with
  | zero => rfl
  | succ len ih =>
      have hshift : k * 256 ^ (len + 1) = k * 256 * 256 ^ len := by
        rw [pow_succ]
        ring
      have hdigit : (k * 256 * 256 ^ len + n) / 256 ^ len =
          k * 256 + n / 256 ^ len := by
        rw [Nat.add_comm, Nat.add_mul_div_right _ _ (Nat.pow_pos (by decide)),
          Nat.add_comm]
      have hbyte : UInt8.ofNat (k * 256 + n / 256 ^ len) =
          UInt8.ofNat (n / 256 ^ len) := by
        apply UInt8.toNat_inj.mp
        simp only [UInt8.toNat_ofNat', Nat.reducePow]
        omega
      rw [encode, encode, hshift, hdigit, hbyte, ih]

/-- Writing what was read gives the bytes back. -/
theorem encode_decode (bytes : List UInt8) :
    encode bytes.length (decode bytes) = bytes := by
  induction bytes with
  | nil => rfl
  | cons byte rest ih =>
      have hdigit : (byte.toNat * 256 ^ rest.length + decode rest) /
          256 ^ rest.length = byte.toNat := by
        rw [Nat.add_comm, Nat.add_mul_div_right _ _ (Nat.pow_pos (by decide)),
          Nat.div_eq_of_lt (decode_lt rest), Nat.zero_add]
      rw [List.length_cons, encode, decode_cons, hdigit, encode_mul_add, ih,
        UInt8.ofNat_toNat]

end Sponge.Support.BigEndian
