import Mathlib.Data.Nat.ModEq

/-!
# Ones' complement sums of 16-bit words

The sum of a string of bytes, read as 16-bit words in network byte order and
padded with a zero byte, in ones' complement arithmetic: a carry out of the 16
bits is added to the sum again.  The representative of a sum is 0 only if all
words are; otherwise it is at least 1, and all ones for a multiple of 65535.
-/

namespace Sponge.Support.OnesComplement

/-- The sum of the words, with its carries. -/
def wordSum : List UInt8 → ℕ
  | [] => 0
  | [hi] => hi.toNat * 256
  | hi :: lo :: rest => hi.toNat * 256 + lo.toNat + wordSum rest

/-- A sum with its carries added to the 16 bits until none is left. -/
def reduce (n : ℕ) : ℕ :=
  if n = 0 then 0 else (n - 1) % 65535 + 1

/-- The words and the rest of the sum add up to all ones. -/
def Verifies (sum : ℕ) (bytes : List UInt8) : Prop :=
  reduce (sum + wordSum bytes) = 0xffff

instance (sum : ℕ) (bytes : List UInt8) : Decidable (Verifies sum bytes) :=
  inferInstanceAs (Decidable (_ = _))

theorem wordSum_append {front : List UInt8} (h : front.length % 2 = 0)
    (back : List UInt8) :
    wordSum (front ++ back) = wordSum front + wordSum back := by
  induction front using wordSum.induct with
  | case1 => simp [wordSum]
  | case2 hi => simp at h
  | case3 hi lo rest ih =>
      have hrest : rest.length % 2 = 0 := by
        simp only [List.length_cons] at h
        omega
      simp only [List.cons_append, wordSum, ih hrest]
      omega

theorem wordSum_le (bytes : List UInt8) :
    wordSum bytes ≤ 65280 * bytes.length := by
  induction bytes using wordSum.induct with
  | case1 => simp [wordSum]
  | case2 hi =>
      have hhi := hi.toNat_lt
      simp only [wordSum, List.length_singleton]
      omega
  | case3 hi lo rest ih =>
      have hhi := hi.toNat_lt
      have hlo := lo.toNat_lt
      simp only [wordSum, List.length_cons]
      omega

theorem reduce_of_le {n : ℕ} (h : n ≤ 0xffff) : reduce n = n := by
  unfold reduce
  split <;> omega

theorem reduce_le (n : ℕ) : reduce n ≤ 0xffff := by
  unfold reduce
  split <;> omega

/-- What is added to a sum may be added to its carries and its low 16 bits. -/
theorem reduce_carry_add (n m : ℕ) :
    reduce (n / 65536 + n % 65536 + m) = reduce (n + m) := by
  unfold reduce
  split <;> split <;> omega

/-- Adding the carries to the low 16 bits does not change the sum. -/
theorem reduce_carry (n : ℕ) :
    reduce (n / 65536 + n % 65536) = reduce n :=
  reduce_carry_add n 0

/-- A sum is completed to all ones by the complement of its representative. -/
theorem reduce_add_complement (n : ℕ) :
    reduce (n + (0xffff - reduce n)) = 0xffff := by
  unfold reduce
  split <;> split <;> omega

/-! ## Word by word -/

/-- The words of a string, the last one padded with a zero byte. -/
def words : List UInt8 → List ℕ
  | [] => []
  | [hi] => [hi.toNat * 256]
  | hi :: lo :: rest => (hi.toNat * 256 + lo.toNat) :: words rest

/-- The sum of two words, with the carry added at the other end. -/
def carryAdd (a b : ℕ) : ℕ :=
  if a + b ≤ 0xffff then a + b else a + b - 0xffff

/-- The ones' complement sum of the two words of a 32-bit number and of the words
of a string. -/
def onesSum (initial : ℕ) (bytes : List UInt8) : ℕ :=
  (initial / 65536 :: initial % 65536 :: words bytes).foldl carryAdd 0

/-- The strings have the same words except for one, and this one is not 0 in one
of them and all ones in the other. -/
def DifferInOneWord (bytes bytes' : List UInt8) : Prop :=
  ∃ front back w w', words bytes = front ++ w :: back ∧
    words bytes' = front ++ w' :: back ∧ w ≠ w' ∧
    ¬(w = 0 ∧ w' = 0xffff) ∧ ¬(w = 0xffff ∧ w' = 0)

theorem words_le (bytes : List UInt8) : ∀ w ∈ words bytes, w ≤ 0xffff := by
  induction bytes using words.induct with
  | case1 => simp [words]
  | case2 hi =>
      have hhi := hi.toNat_lt
      simp only [words, List.mem_singleton, forall_eq]
      omega
  | case3 hi lo rest ih =>
      have hhi := hi.toNat_lt
      have hlo := lo.toNat_lt
      simp only [words, List.forall_mem_cons]
      exact ⟨by omega, ih⟩

theorem sum_words (bytes : List UInt8) : (words bytes).sum = wordSum bytes := by
  induction bytes using words.induct with
  | case1 => rfl
  | case2 hi => simp [words, wordSum]
  | case3 hi lo rest ih => rw [words, wordSum, List.sum_cons, ih]

theorem carryAdd_reduce (n : ℕ) {w : ℕ} (h : w ≤ 0xffff) :
    carryAdd (reduce n) w = reduce (n + w) := by
  unfold carryAdd reduce
  split <;> split <;> split <;> omega

/-- Carries may be put off until all words are added. -/
theorem foldl_carryAdd (ws : List ℕ) (h : ∀ w ∈ ws, w ≤ 0xffff) (n : ℕ) :
    ws.foldl carryAdd (reduce n) = reduce (n + ws.sum) := by
  induction ws generalizing n with
  | nil => rfl
  | cons w ws ih =>
      rw [List.forall_mem_cons] at h
      rw [List.foldl_cons, carryAdd_reduce n h.1, ih h.2, List.sum_cons,
        Nat.add_assoc]

theorem onesSum_eq {initial : ℕ} (h : initial < 2 ^ 32)
    (bytes : List UInt8) :
    onesSum initial bytes = reduce (initial + wordSum bytes) := by
  have hwords : ∀ w ∈ initial / 65536 :: initial % 65536 :: words bytes,
      w ≤ 0xffff := by
    rw [List.forall_mem_cons, List.forall_mem_cons]
    exact ⟨by omega, by omega, words_le bytes⟩
  have hfold := foldl_carryAdd _ hwords 0
  rw [List.sum_cons, List.sum_cons, sum_words, Nat.zero_add,
    ← Nat.add_assoc, reduce_carry_add] at hfold
  exact hfold

/-- Two words that complete the same sum to the same representative are equal,
or the two representations of 0. -/
theorem reduce_add_inj {n w w' : ℕ} (hw : w ≤ 0xffff) (hw' : w' ≤ 0xffff)
    (h : reduce (n + w) = reduce (n + w')) :
    w = w' ∨ (w = 0 ∧ w' = 0xffff) ∨ (w = 0xffff ∧ w' = 0) := by
  unfold reduce at h
  split at h <;> split at h <;> omega

/-- Strings that differ in one word have different sums. -/
theorem DifferInOneWord.reduce_ne {bytes bytes' : List UInt8}
    (h : DifferInOneWord bytes bytes') (n : ℕ) :
    reduce (n + wordSum bytes) ≠ reduce (n + wordSum bytes') := by
  obtain ⟨front, back, w, w', hwords, hwords', hne, hzero, hones⟩ := h
  have hw : w ≤ 0xffff := words_le bytes w (by simp [hwords])
  have hw' : w' ≤ 0xffff := words_le bytes' w' (by simp [hwords'])
  intro heq
  have hsum : ∀ v, n + (front ++ v :: back).sum =
      n + front.sum + back.sum + v := by
    intro v
    rw [List.sum_append, List.sum_cons]
    omega
  rw [← sum_words, ← sum_words, hwords, hwords', hsum, hsum] at heq
  rcases reduce_add_inj hw hw' heq with hsame | hcase | hcase
  · exact hne hsame
  · exact hzero hcase
  · exact hones hcase

end Sponge.Support.OnesComplement
