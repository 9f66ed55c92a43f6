import Sponge.Packet.Parser
import Sponge.Support.OnesComplement

/-!
# The Internet checksum

`InternetChecksum` adds bytes to a 32-bit sum, every other one shifted by eight
bits, and folds the sum into 16 bits at the end.  As long as the sum does not
overflow, the value is the complement of the ones' complement sum of the words.
-/

namespace Sponge

open Support.OnesComplement

structure InternetChecksum where
  sum : UInt32 := 0
  parity : Bool := false
deriving DecidableEq

namespace InternetChecksum

/-- The body of the loop in `add`. -/
def addByte (check : InternetChecksum) (byte : UInt8) : InternetChecksum :=
  let val := byte.toUInt16
  let val := if !check.parity then val <<< 8 else val
  { sum := check.sum + val.toUInt32, parity := !check.parity }

def add (check : InternetChecksum) (data : List UInt8) : InternetChecksum :=
  data.foldl addByte check

/-- The loop in `value`, for at most `fuel` turns. -/
def fold : ℕ → UInt32 → UInt32
  | 0, ret => ret
  | fuel + 1, ret =>
      if ret > 0xffff then fold fuel ((ret >>> 16) + (ret &&& 0xffff)) else ret

/-- Two turns fold 32 bits into 16. -/
def value (check : InternetChecksum) : UInt16 :=
  (~~~(fold 2 check.sum)).toUInt16

theorem add_append (check : InternetChecksum) (front back : List UInt8) :
    (check.add front).add back = check.add (front ++ back) := by
  rw [add, add, add, List.foldl_append]

/-! ## The sum -/

theorem addByte_false (sum : UInt32) (byte : UInt8) :
    addByte ⟨sum, false⟩ byte =
      ⟨sum + UInt32.ofNat (byte.toNat * 256), true⟩ := by
  have hlt := byte.toNat_lt
  have hval : (byte.toUInt16 <<< 8).toUInt32 =
      UInt32.ofNat (byte.toNat * 256) := by
    apply UInt32.toNat_inj.mp
    simp only [UInt16.toNat_toUInt32, UInt16.toNat_shiftLeft,
      UInt8.toNat_toUInt16, UInt32.toNat_ofNat', Nat.shiftLeft_eq,
      UInt16.reduceToNat, Nat.reduceMod, Nat.reducePow]
    omega
  simp only [addByte, Bool.not_false, if_true, hval]

theorem addByte_true (sum : UInt32) (byte : UInt8) :
    addByte ⟨sum, true⟩ byte = ⟨sum + UInt32.ofNat byte.toNat, false⟩ := by
  have hval : byte.toUInt16.toUInt32 = UInt32.ofNat byte.toNat := by
    apply UInt32.toNat_inj.mp
    simp
  simp [addByte, hval]

/-- What `add` does to the sum, words counted from the first byte. -/
theorem sum_add (sum : UInt32) (data : List UInt8) :
    (add ⟨sum, false⟩ data).sum = sum + UInt32.ofNat (wordSum data) := by
  induction data using wordSum.induct generalizing sum with
  | case1 => simp [add, wordSum]
  | case2 hi => simp [add, addByte_false, wordSum]
  | case3 hi lo rest ih =>
      have hstep : add ⟨sum, false⟩ (hi :: lo :: rest) =
          add ⟨sum + UInt32.ofNat (hi.toNat * 256) +
            UInt32.ofNat lo.toNat, false⟩ rest := by
        simp only [add, List.foldl_cons, addByte_false, addByte_true]
      rw [hstep, ih, wordSum, UInt32.ofNat_add, UInt32.ofNat_add]
      simp only [UInt32.add_assoc]

/-! ## Folding -/

theorem toNat_fold_step (ret : UInt32) :
    ((ret >>> 16) + (ret &&& 0xffff)).toNat =
      ret.toNat / 65536 + ret.toNat % 65536 := by
  have hlt := ret.toNat_lt
  have hand : ret.toNat &&& 65535 = ret.toNat % 65536 :=
    Nat.and_two_pow_sub_one_eq_mod ret.toNat 16
  simp only [UInt32.toNat_add, UInt32.toNat_shiftRight, UInt32.toNat_and,
    UInt32.reduceToNat, hand, Nat.shiftRight_eq_div_pow, Nat.reduceMod,
    Nat.reducePow]
  omega

theorem reduce_fold (fuel : ℕ) (ret : UInt32) :
    reduce (fold fuel ret).toNat = reduce ret.toNat := by
  induction fuel generalizing ret with
  | zero => rfl
  | succ fuel ih =>
      rw [fold]
      split
      · rw [ih, toNat_fold_step, reduce_carry]
      · rfl

/-- After two turns the condition of the loop fails. -/
theorem toNat_fold_le (ret : UInt32) : (fold 2 ret).toNat ≤ 0xffff := by
  have hlt := ret.toNat_lt
  have hstep := toNat_fold_step ret
  simp only [fold]
  split
  · split
    · have hstep' := toNat_fold_step ((ret >>> 16) + (ret &&& 0xffff))
      rw [hstep']
      omega
    · rename_i h
      exact Nat.not_lt.mp h
  · rename_i h
    exact Nat.not_lt.mp h

/-- The value is the complement of the folded sum. -/
theorem toNat_value (check : InternetChecksum) :
    check.value.toNat = 0xffff - reduce check.sum.toNat := by
  have hle := toNat_fold_le check.sum
  have hreduce : reduce check.sum.toNat = (fold 2 check.sum).toNat := by
    rw [← reduce_fold 2, reduce_of_le hle]
  rw [value, hreduce]
  simp only [UInt32.toNat_toUInt16, UInt32.toNat_not, UInt32.size]
  omega

/-! ## The checksum of a string -/

/-- A header and 65535 bytes are too short for the sum to overflow. -/
theorem sum_lt_of_length_le {initialSum : UInt32}
    (hinitial : initialSum.toNat ≤ 2 ^ 20) {data : List UInt8}
    (hlen : data.length ≤ 60 + 65535) :
    initialSum.toNat + wordSum data < 2 ^ 32 := by
  have hle := wordSum_le data
  omega

theorem toNat_sum_add (initialSum : UInt32) (data : List UInt8)
    (h : initialSum.toNat + wordSum data < 2 ^ 32) :
    (add { sum := initialSum } data).sum.toNat =
      initialSum.toNat + wordSum data := by
  rw [sum_add, UInt32.toNat_add, UInt32.toNat_ofNat', Nat.add_mod_mod,
    Nat.mod_eq_of_lt h]

/-- The checksum over `data` with the sum started at `initialSum`. -/
theorem toNat_value_add (initialSum : UInt32) (data : List UInt8)
    (h : initialSum.toNat + wordSum data < 2 ^ 32) :
    (add { sum := initialSum } data).value.toNat =
      0xffff - reduce (initialSum.toNat + wordSum data) := by
  rw [toNat_value, toNat_sum_add initialSum data h]

theorem value_add_eq_zero_iff (initialSum : UInt32) (data : List UInt8)
    (h : initialSum.toNat + wordSum data < 2 ^ 32) :
    (add { sum := initialSum } data).value = 0 ↔
      Verifies initialSum.toNat data := by
  have hvalue := toNat_value_add initialSum data h
  have hle := reduce_le (initialSum.toNat + wordSum data)
  rw [← UInt16.toNat_inj, hvalue, Verifies]
  simp only [UInt16.toNat_zero]
  omega

/-! ## Inserting the checksum -/

theorem wordSum_u16 (val : UInt16) :
    wordSum (NetUnparser.u16 val) = val.toNat := by
  have hlt := val.toNat_lt
  simp only [NetUnparser.u16, Support.BigEndian.encode, wordSum,
    UInt8.toNat_ofNat', Nat.reducePow]
  omega

/-- A string verifies once the checksum over it is written to a word of it that
was zero, at an even offset. -/
theorem verifies_of_inserted (initialSum : UInt32) {front : List UInt8}
    (heven : front.length % 2 = 0) (back : List UInt8)
    (h : initialSum.toNat +
      wordSum (front ++ (NetUnparser.u16 0 ++ back)) < 2 ^ 32) :
    Verifies initialSum.toNat (front ++ (NetUnparser.u16
      (add { sum := initialSum }
        (front ++ (NetUnparser.u16 0 ++ back))).value ++ back)) := by
  have hvalue := toNat_value_add initialSum _ h
  have hsum : ∀ val, wordSum (front ++ (NetUnparser.u16 val ++ back)) =
      wordSum front + (val.toNat + wordSum back) := by
    intro val
    rw [wordSum_append heven, wordSum_append (by simp), wordSum_u16]
  rw [Verifies, hsum, hvalue, hsum, UInt16.toNat_zero, Nat.zero_add]
  have hcomplete := reduce_add_complement
    (initialSum.toNat + (wordSum front + wordSum back))
  rw [← hcomplete]
  congr 1
  omega

/-! ## Adding a string in pieces -/

/-- The parity is kept from one call to the next, so that only the
concatenation counts. -/
theorem foldl_add (check : InternetChecksum) (pieces : List (List UInt8)) :
    pieces.foldl add check = check.add pieces.flatten := by
  induction pieces generalizing check with
  | nil => rfl
  | cons piece pieces ih =>
      rw [List.foldl_cons, ih, add_append, List.flatten_cons]

theorem fold_of_not_gt (fuel : ℕ) {ret : UInt32} (h : ¬ret > 0xffff) :
    fold fuel ret = ret := by
  cases fuel with
  | zero => rfl
  | succ fuel => rw [fold, if_neg h]

theorem fold_add (fuel more : ℕ) (ret : UInt32) :
    fold (fuel + more) ret = fold more (fold fuel ret) := by
  induction fuel generalizing ret with
  | zero => rw [Nat.zero_add, fold]
  | succ fuel ih =>
      rw [Nat.succ_add, fold, fold]
      by_cases h : ret > 0xffff
      · rw [if_pos h, if_pos h, ih]
      · rw [if_neg h, if_neg h, fold_of_not_gt more h]

/-- The loop ends after two turns at most. -/
theorem fold_of_two_le {fuel : ℕ} (h : 2 ≤ fuel) (ret : UInt32) :
    fold fuel ret = fold 2 ret ∧ ¬fold fuel ret > 0xffff := by
  have hends : ¬fold 2 ret > 0xffff := Nat.not_lt.mpr (toNat_fold_le ret)
  obtain ⟨more, rfl⟩ := Nat.exists_eq_add_of_le h
  have hsame : fold (2 + more) ret = fold 2 ret := by
    rw [fold_add, fold_of_not_gt more hends]
  exact ⟨hsame, hsame ▸ hends⟩

theorem value_add_eq {initialSum : UInt32} {data : List UInt8}
    (h : initialSum.toNat + wordSum data < 2 ^ 32) :
    (add { sum := initialSum } data).value =
      ~~~(UInt16.ofNat (onesSum initialSum.toNat data)) := by
  have hle := reduce_le (initialSum.toNat + wordSum data)
  have hlt : reduce (initialSum.toNat + wordSum data) < UInt16.size :=
    Nat.lt_succ_of_le hle
  apply UInt16.toNat_inj.mp
  rw [toNat_value_add initialSum data h, UInt16.toNat_not,
    onesSum_eq initialSum.toNat_lt, UInt16.toNat_ofNat_of_lt' hlt]
  rfl

theorem value_add_ne {initialSum : UInt32} {data data' : List UInt8}
    (h : initialSum.toNat + wordSum data < 2 ^ 32)
    (h' : initialSum.toNat + wordSum data' < 2 ^ 32)
    (hdiffer : DifferInOneWord data data') :
    (add { sum := initialSum } data).value ≠
      (add { sum := initialSum } data').value := by
  intro hsame
  have hvalues := congrArg UInt16.toNat hsame
  rw [toNat_value_add initialSum data h,
    toNat_value_add initialSum data' h'] at hvalues
  have hle := reduce_le (initialSum.toNat + wordSum data)
  have hle' := reduce_le (initialSum.toNat + wordSum data')
  apply hdiffer.reduce_ne initialSum.toNat
  omega

/-- **The Internet checksum.**  The value does not depend on the pieces in which
the bytes are added: it is the complement of the ones' complement sum of the
initial sum and the words of the concatenation.  The 32-bit sum does not overflow
at any byte, two turns of the folding loop are always enough, and strings that
differ in one word have different values. -/
theorem value_foldl_add (initialSum : UInt32)
    (hinitial : initialSum.toNat ≤ 2 ^ 20) (pieces : List (List UInt8))
    (hlen : pieces.flatten.length ≤ 65535) :
    let check := pieces.foldl add { sum := initialSum }
    check.value =
        ~~~(UInt16.ofNat (onesSum initialSum.toNat pieces.flatten)) ∧
      (∀ pieces' : List (List UInt8), pieces'.flatten = pieces.flatten →
        pieces'.foldl add { sum := initialSum } = check) ∧
      (∀ done, done <+: pieces.flatten →
        (add { sum := initialSum } done).sum.toNat =
          initialSum.toNat + wordSum done) ∧
      (∀ fuel, 2 ≤ fuel → fold fuel check.sum = fold 2 check.sum ∧
        ¬fold fuel check.sum > 0xffff) ∧
      ∀ pieces' : List (List UInt8), pieces'.flatten.length ≤ 65535 →
        DifferInOneWord pieces.flatten pieces'.flatten →
        check.value ≠ (pieces'.foldl add { sum := initialSum }).value := by
  have hlt : ∀ data : List UInt8, data.length ≤ 65535 →
      initialSum.toNat + wordSum data < 2 ^ 32 :=
    fun data hdata => sum_lt_of_length_le hinitial (Nat.le_add_left_of_le hdata)
  simp only [foldl_add]
  refine ⟨value_add_eq (hlt _ hlen), ?_, ?_, ?_, ?_⟩
  · intro pieces' hsame
    rw [hsame]
  · intro done hdone
    apply toNat_sum_add initialSum done
    exact hlt done (hdone.length_le.trans hlen)
  · intro fuel hfuel
    exact fold_of_two_le hfuel _
  · intro pieces' hlen' hdiffer
    exact value_add_ne (hlt _ hlen) (hlt _ hlen') hdiffer

theorem value_foldl_add_odd_pieces :
    ([[1], [2, 3]].foldl add { sum := 7 }).value = ~~~1033 ∧
      ([[1], [2, 3]].foldl add { sum := 7 }).value ≠
        ([[1, 2], [4]].foldl add { sum := 7 }).value := by
  have hinitial : (7 : UInt32).toNat ≤ 2 ^ 20 := by decide
  have hdiffer : DifferInOneWord [1, 2, 3] [1, 2, 4] :=
    ⟨[258], [], 768, 1024, rfl, rfl, by decide, by decide, by decide⟩
  obtain ⟨hvalue, -, -, -, hother⟩ :=
    value_foldl_add 7 hinitial [[1], [2, 3]] (by decide)
  have hsum : onesSum (7 : UInt32).toNat [[1], [2, 3]].flatten = 1033 := by
    decide
  rw [hsum] at hvalue
  exact ⟨hvalue, hother [[1, 2], [4]] (by decide) hdiffer⟩

end InternetChecksum
end Sponge
