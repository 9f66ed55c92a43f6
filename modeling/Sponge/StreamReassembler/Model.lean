import Sponge.ByteStream.Contents
import Sponge.Support.Fragments
import Sponge.Support.Size

/-!
# The stream reassembler

`StreamReassembler` keeps the substrings that arrive ahead of the next expected
index in an ordered map and writes them to its output stream as soon as they
become contiguous.

Stream indices are natural numbers, as are the sums of an index and a length;
`Sponge.StreamReassembler.Word64` has the sums of the source, which wrap modulo
`2 ^ 64`, and shows that they agree while they stay below that.  Subtractions of
sizes wrap here as well when they would go below zero, as they do for `size_t`.
`std::string::substr` throws when its position lies beyond the end of the
string, so every function that calls it returns an `Option`, with `none` for the
exception.
-/

namespace Sponge

open Support

/-- `std::string::substr` from `pos` to the end. -/
def substr (s : List UInt8) (pos : ℕ) : Option (List UInt8) :=
  if pos ≤ s.length then some (s.drop pos) else none

theorem substr_of_le {s : List UInt8} {pos : ℕ} (h : pos ≤ s.length) :
    substr s pos = some (s.drop pos) :=
  if_pos h

structure StreamReassembler where
  output : ByteStream
  capacity : ℕ
  mp : List (ℕ × List UInt8)
  nidx : ℕ
  eof : Bool
  eidx : ℕ
  unassembledBytes : ℕ
deriving DecidableEq

namespace StreamReassembler

def new (capacity : ℕ) : StreamReassembler where
  output := .new capacity
  capacity := capacity
  mp := []
  nidx := 0
  eof := false
  eidx := 0
  unassembledBytes := 0

/-- Write the part of a substring that starts at `first` and reaches beyond the
next index, and advance the next index by what the output accepted. -/
def assemble (r : StreamReassembler) (first : ℕ) (second : List UInt8) :
    Option StreamReassembler := do
  let rest ← substr second (r.nidx - first)
  let (output, written) := r.output.write rest
  return { r with output, nidx := r.nidx + written }

/-- The body of the loop in the in-order branch: write an entry as far as it is
new and take its size off the byte count. -/
def assembleEntry (r : StreamReassembler) (first : ℕ) (second : List UInt8) :
    Option StreamReassembler := do
  let r ← if r.nidx - first < second.length then r.assemble first second
    else pure r
  return { r with
    unassembledBytes := subSize r.unassembledBytes second.length }

/-- The loop over the start of the map in the in-order branch: every entry that
starts at or before the next index is assembled and erased. -/
def assemblePending (r : StreamReassembler) :
    List (ℕ × List UInt8) → Option StreamReassembler
  | [] => return { r with mp := [] }
  | (first, second) :: rest =>
      if first ≤ r.nidx then do
        let r ← r.assembleEntry first second
        r.assemblePending rest
      else
        return { r with mp := (first, second) :: rest }

/-- The substring being stored and what is left of the map and of the byte
count while neighbours are merged into it. -/
structure Merge where
  idx : ℕ
  str : List UInt8
  unassembledBytes : ℕ
  mp : List (ℕ × List UInt8)
deriving DecidableEq

/-- Extend `str`, which starts at `idx`, by the part of the next entry that
reaches beyond its end. -/
def appendNext (idx : ℕ) (str : List UInt8) (first : ℕ)
    (second : List UInt8) : Option (List UInt8) :=
  if idx + str.length < first + second.length then do
    let tail ← substr second (idx + str.length - first)
    return str ++ tail
  else
    return str

/-- The loop over the entries from `lower_bound(idx)` on: those that start at
or before the end of `str` are merged into it and erased. -/
def mergeNext (idx : ℕ) (str : List UInt8) (unassembledBytes : ℕ) :
    List (ℕ × List UInt8) → Option Merge
  | [] => return ⟨idx, str, unassembledBytes, []⟩
  | (first, second) :: rest =>
      if first ≤ idx + str.length then do
        let str ← appendNext idx str first second
        mergeNext idx str (subSize unassembledBytes second.length) rest
      else
        return ⟨idx, str, unassembledBytes, (first, second) :: rest⟩

/-- Extend the last entry before `idx` by the part of `str` that reaches beyond
its end. -/
def prependLast (idx : ℕ) (str : List UInt8) (first : ℕ)
    (second : List UInt8) : Option (List UInt8) :=
  if first + second.length < idx + str.length then do
    let tail ← substr str (first + second.length - idx)
    return second ++ tail
  else
    return second

/-- The entry before `lower_bound(idx)`: it is merged and erased when it ends
at or after the start of `str`.  `lower` are the entries before the lower
bound, and `m` is the state after the loop above, whose map holds the entries
from the lower bound on. -/
def mergeLast (lower : List (ℕ × List UInt8)) (m : Merge) : Option Merge :=
  match lower.getLast? with
  | none => return m
  | some (first, second) =>
      if m.idx ≤ first + second.length then do
        let str ← prependLast m.idx m.str first second
        return {
          idx := first
          str := str
          unassembledBytes := subSize m.unassembledBytes second.length
          mp := lower.dropLast ++ m.mp }
      else
        return { m with mp := lower ++ m.mp }

/-- All merging of the out-of-order branch. -/
def merge (r : StreamReassembler) (data : List UInt8) (index : ℕ) :
    Option Merge := do
  let m ← mergeNext index data r.unassembledBytes (lowerBound index r.mp)
  mergeLast (before index r.mp) m

/-- The number of bytes of the merged substring that are kept. -/
def storeSize (r : StreamReassembler) (m : Merge) : ℕ :=
  min (subSize (subSize r.capacity m.unassembledBytes) r.output.bufferSize)
    m.str.length

/-- The end of the out-of-order branch: store what is left of the capacity. -/
def store (r : StreamReassembler) (m : Merge) : StreamReassembler :=
  { r with
    unassembledBytes := m.unassembledBytes + r.storeSize m
    mp := emplace m.idx (m.str.take (r.storeSize m)) m.mp }

/-- The two branches of `push_substring`. -/
def insert (r : StreamReassembler) (data : List UInt8) (index : ℕ) :
    Option StreamReassembler :=
  if index ≤ r.nidx then
    if r.nidx - index < data.length then do
      let r ← r.assemble index data
      r.assemblePending r.mp
    else
      return r
  else do
    let m ← r.merge data index
    return r.store m

/-- The bookkeeping of the end of the stream at the start of
`push_substring`. -/
def noteEof (r : StreamReassembler) (data : List UInt8) (index : ℕ)
    (eof : Bool) : StreamReassembler :=
  if eof then { r with eidx := index + data.length, eof := true } else r

/-- The check for the end of the stream at the end of `push_substring`. -/
def closeAtEof (r : StreamReassembler) : StreamReassembler :=
  if r.eof ∧ r.eidx ≤ r.nidx then { r with output := r.output.endInput }
  else r

def pushSubstring (r : StreamReassembler) (data : List UInt8) (index : ℕ)
    (eof : Bool) : Option StreamReassembler := do
  let r ← (r.noteEof data index eof).insert data index
  return r.closeAtEof

def empty (r : StreamReassembler) : Bool := r.unassembledBytes == 0

def nextIdx (r : StreamReassembler) : ℕ := r.nidx

/-! ## No `substr` is out of range -/

theorem assemble_eq {r : StreamReassembler} {first : ℕ} {second : List UInt8}
    (h : r.nidx - first < second.length) :
    r.assemble first second = some
      { r with
        output := (r.output.write (second.drop (r.nidx - first))).1
        nidx := r.nidx +
          (r.output.accepted (second.drop (r.nidx - first))).length } := by
  simp [assemble, substr_of_le h.le]

theorem assembleEntry_eq (r : StreamReassembler) (first : ℕ)
    (second : List UInt8) :
    ∃ r₁, (if r.nidx - first < second.length then r.assemble first second
        else pure r) = some r₁ ∧
      r.assembleEntry first second = some
        { r₁ with
          unassembledBytes := subSize r₁.unassembledBytes second.length } := by
  by_cases hsecond : r.nidx - first < second.length
  · refine ⟨_, by rw [if_pos hsecond, assemble_eq hsecond], ?_⟩
    simp [assembleEntry, hsecond, assemble_eq hsecond]
  · refine ⟨r, by rw [if_neg hsecond]; rfl, ?_⟩
    simp [assembleEntry, hsecond]

theorem assemblePending_isSome (r : StreamReassembler)
    (m : List (ℕ × List UInt8)) : (r.assemblePending m).isSome := by
  induction m generalizing r with
  | nil => rfl
  | cons entry rest ih =>
      obtain ⟨first, second⟩ := entry
      rw [assemblePending]
      by_cases hfirst : first ≤ r.nidx
      · obtain ⟨r₁, -, hr₁⟩ := r.assembleEntry_eq first second
        simp [hfirst, hr₁, ih]
      · simp [hfirst]

theorem appendNext_eq {idx first : ℕ} {str second : List UInt8} :
    appendNext idx str first second =
      some (str ++ second.drop (idx + str.length - first)) := by
  unfold appendNext
  split
  · rw [substr_of_le (by omega)]
    rfl
  · rw [List.drop_eq_nil_of_le (by omega), List.append_nil]
    rfl

theorem prependLast_eq {idx first : ℕ} {str second : List UInt8} :
    prependLast idx str first second =
      some (second ++ str.drop (first + second.length - idx)) := by
  unfold prependLast
  split
  · rw [substr_of_le (by omega)]
    rfl
  · rw [List.drop_eq_nil_of_le (by omega), List.append_nil]
    rfl

theorem mergeNext_isSome (idx : ℕ) (str : List UInt8) (u : ℕ)
    (m : List (ℕ × List UInt8)) : (mergeNext idx str u m).isSome := by
  induction m generalizing str u with
  | nil => rfl
  | cons entry rest ih =>
      obtain ⟨first, second⟩ := entry
      rw [mergeNext]
      by_cases hfirst : first ≤ idx + str.length
      · simp [hfirst, appendNext_eq, ih]
      · simp [hfirst]

theorem mergeLast_isSome (lower : List (ℕ × List UInt8)) (m : Merge) :
    (mergeLast lower m).isSome := by
  unfold mergeLast
  split
  · rfl
  · rename_i first second _
    by_cases hlast : m.idx ≤ first + second.length
    · simp [hlast, prependLast_eq]
    · simp [hlast]

theorem merge_isSome (r : StreamReassembler) (data : List UInt8)
    (index : ℕ) : (r.merge data index).isSome := by
  obtain ⟨m, hm⟩ := Option.isSome_iff_exists.mp
    (mergeNext_isSome index data r.unassembledBytes (lowerBound index r.mp))
  simp [merge, hm, mergeLast_isSome]

theorem insert_isSome (r : StreamReassembler) (data : List UInt8)
    (index : ℕ) : (r.insert data index).isSome := by
  unfold insert
  by_cases hindex : index ≤ r.nidx
  · by_cases hnew : r.nidx - index < data.length
    · simp [hindex, hnew, assemble_eq hnew, assemblePending_isSome]
    · simp [hindex, hnew]
  · obtain ⟨m, hm⟩ := Option.isSome_iff_exists.mp (r.merge_isSome data index)
    simp [hindex, hm]

/-- `push_substring` never throws. -/
theorem pushSubstring_isSome (r : StreamReassembler) (data : List UInt8)
    (index : ℕ) (eof : Bool) : (r.pushSubstring data index eof).isSome := by
  obtain ⟨r', hr'⟩ := Option.isSome_iff_exists.mp
    ((r.noteEof data index eof).insert_isSome data index)
  simp [pushSubstring, hr']

/-- The reassembler after a call of `push_substring`. -/
def push (r : StreamReassembler) (data : List UInt8) (index : ℕ)
    (eof : Bool) : StreamReassembler :=
  (r.pushSubstring data index eof).get (r.pushSubstring_isSome data index eof)

/-! ## No substring sets the error of the output -/

theorem error_assemblePending {r r' : StreamReassembler}
    {m : List (ℕ × List UInt8)} (h : r.assemblePending m = some r') :
    r'.output.error = r.output.error := by
  induction m generalizing r with
  | nil =>
      rw [← Option.some.inj h]
  | cons entry rest ih =>
      obtain ⟨first, second⟩ := entry
      rw [assemblePending] at h
      by_cases hfirst : first ≤ r.nidx
      · obtain ⟨r₁, hr₁, hentry⟩ := r.assembleEntry_eq first second
        rw [if_pos hfirst, hentry] at h
        refine (ih h).trans ?_
        by_cases hnew : r.nidx - first < second.length
        · rw [if_pos hnew, assemble_eq hnew] at hr₁
          rw [← Option.some.inj hr₁]
          exact ByteStream.error_write _ _
        · rw [if_neg hnew] at hr₁
          rw [← Option.some.inj hr₁]
      · rw [if_neg hfirst] at h
        rw [← Option.some.inj h]

theorem error_insert {r r' : StreamReassembler} {data : List UInt8}
    {index : ℕ} (h : r.insert data index = some r') :
    r'.output.error = r.output.error := by
  unfold insert at h
  by_cases hindex : index ≤ r.nidx
  · rw [if_pos hindex] at h
    by_cases hnew : r.nidx - index < data.length
    · rw [if_pos hnew, assemble_eq hnew] at h
      exact (error_assemblePending h).trans (ByteStream.error_write _ _)
    · rw [if_neg hnew] at h
      rw [← Option.some.inj h]
  · rw [if_neg hindex] at h
    obtain ⟨m, -, hstore⟩ := Option.bind_eq_some_iff.mp h
    rw [← Option.some.inj hstore]
    rfl

theorem error_push (r : StreamReassembler) (data : List UInt8) (index : ℕ)
    (eof : Bool) :
    (r.push data index eof).output.error = r.output.error := by
  have hpush : r.pushSubstring data index eof =
      some (r.push data index eof) := (Option.some_get _).symm
  obtain ⟨r', hinsert, hclose⟩ := Option.bind_eq_some_iff.mp hpush
  have hnote : (r.noteEof data index eof).output = r.output := by
    unfold noteEof
    split <;> rfl
  have hclosed : r'.closeAtEof.output.error = r'.output.error := by
    unfold closeAtEof
    split <;> rfl
  rw [← Option.some.inj hclose, hclosed, error_insert hinsert, hnote]

end StreamReassembler
end Sponge
