import Sponge.Packet.Parser
import Sponge.Support.Pieces

/-!
# Buffers and their storage

A `Buffer` shares a string with its copies and skips a part of it; the string is
released once all of it is skipped.  What a buffer shows is a string of bytes,
and this is all that the other packet modules know of it.  Here are the buffers
themselves, the lists of them and the views of such lists, and the removal of
bytes from the front of each.

The storage is read-only, so that a copy is the same value.
-/

namespace Sponge.Util

open Support

/-! ## Buffers -/

/-- A `Buffer`: the shared string, if there is one, and the number of bytes
skipped, which never exceeds its size. -/
structure Buffer where
  storage : Option (List UInt8) := none
  startingOffset : ℕ := 0
  startingOffset_le : ∀ bytes ∈ storage, startingOffset ≤ bytes.length := by
    simp
deriving DecidableEq

namespace Buffer

/-- The constructor that takes ownership of a string. -/
def ofString (bytes : List UInt8) : Buffer where
  storage := some bytes

/-- The bytes that the buffer shows. -/
def str (b : Buffer) : List UInt8 :=
  match b.storage with
  | none => []
  | some bytes => bytes.drop b.startingOffset

def size (b : Buffer) : ℕ := b.str.length

/-- The byte at position `n`, if there is one. -/
def charAt (b : Buffer) (n : ℕ) : Except Exception UInt8 :=
  match b.str[n]? with
  | some byte => .ok byte
  | none => .error (.outOfRange "basic_string_view::at")

/-- The storage after `n` more bytes are skipped: it is released once all of it
is. -/
def storageAfter (b : Buffer) (n : ℕ) : Option (List UInt8) :=
  match b.storage with
  | none => none
  | some bytes =>
      if b.startingOffset + n = bytes.length then none else some bytes

theorem startingOffset_add_le {b : Buffer} {n : ℕ} (h : n ≤ b.str.length) :
    ∀ bytes ∈ b.storageAfter n, b.startingOffset + n ≤ bytes.length := by
  intro bytes hmem
  obtain ⟨storage, startingOffset, hle⟩ := b
  cases storage with
  | none => simp [storageAfter] at hmem
  | some stored =>
      obtain rfl : stored = bytes := by
        simp only [storageAfter] at hmem
        split at hmem
        · cases hmem
        · exact Option.some.inj hmem
      have hoffset := hle stored rfl
      simp only [str, List.length_drop] at h ⊢
      omega

/-- Skip the first `n` bytes, and release the storage if nothing is left. -/
def removePrefix (b : Buffer) (n : ℕ) : Except Exception Buffer :=
  if h : n > b.str.length then .error (.outOfRange "Buffer::remove_prefix")
  else
    .ok { storage := b.storageAfter n
          startingOffset := b.startingOffset + n
          startingOffset_le := startingOffset_add_le (Nat.not_lt.mp h) }

theorem charAt_of_lt {b : Buffer} {n : ℕ} (h : n < b.str.length) :
    b.charAt n = .ok b.str[n] := by
  rw [charAt, List.getElem?_eq_getElem h]

/-- Whether or not the storage is released, the bytes after the first `n`
remain. -/
theorem yields_removePrefix (b : Buffer) (n : ℕ) (h : n ≤ b.size) :
    Yields str (b.removePrefix n) (b.str.drop n) := by
  refine ⟨_, dif_neg (Nat.not_lt.mpr h), ?_⟩
  obtain ⟨storage, startingOffset, hle⟩ := b
  cases storage with
  | none => simp [str, storageAfter]
  | some bytes =>
      by_cases hall : startingOffset + n = bytes.length
      · simp [str, storageAfter, hall]
      · simp [str, storageAfter, hall]

end Buffer

/-! ## Lists of buffers -/

abbrev BufferList := List Buffer

namespace BufferList

def size (buffers : BufferList) : ℕ := (buffers.map Buffer.size).sum

def concatenate (buffers : BufferList) : List UInt8 :=
  buffers.flatMap Buffer.str

/-- Drop whole buffers, and trim the one in which the prefix ends. -/
def removePrefix : BufferList → ℕ → BufferList × Except Exception Unit :=
  removeFront Buffer.size Buffer.removePrefix
    (.outOfRange "BufferList::remove_prefix")

theorem length_concatenate (buffers : BufferList) :
    buffers.concatenate.length = buffers.size :=
  List.length_flatMap

end BufferList

/-! ## Views of lists of buffers -/

/-- A `BufferViewList`: the strings that the buffers of a list show. -/
abbrev BufferViewList := List (List UInt8)

namespace BufferViewList

/-- The constructor that takes a list of buffers. -/
def ofBufferList (buffers : BufferList) : BufferViewList :=
  buffers.map Buffer.str

def size (views : BufferViewList) : ℕ := (views.map List.length).sum

/-- As for a list of buffers; the prefix of a view is removed without a
check. -/
def removePrefix :
    BufferViewList → ℕ → BufferViewList × Except Exception Unit :=
  removeFront List.length (fun view n => .ok (view.drop n))
    (.outOfRange "BufferListView::remove_prefix")

/-- A view of a list shows the bytes of the list. -/
theorem flatten_ofBufferList (buffers : BufferList) :
    (ofBufferList buffers).flatten = buffers.concatenate :=
  List.flatMap_def.symm

theorem size_ofBufferList (buffers : BufferList) :
    (ofBufferList buffers).size = buffers.size := by
  rw [← buffers.length_concatenate, ← flatten_ofBufferList, size,
    List.length_flatten]

end BufferViewList

/-! ## Removing a prefix -/

namespace BufferList

/-- The two loops keep step: either both succeed, and the views that are left
are views of the buffers that are left, or both run out of bytes. -/
theorem removePrefix_cases (buffers : BufferList) (n : ℕ) :
    (∃ rest, buffers.removePrefix n = (rest, .ok ()) ∧
        (BufferViewList.ofBufferList buffers).removePrefix n =
          (BufferViewList.ofBufferList rest, .ok ())) ∨
      (buffers.removePrefix n =
          ([], .error (.outOfRange "BufferList::remove_prefix")) ∧
        (BufferViewList.ofBufferList buffers).removePrefix n =
          ([], .error (.outOfRange "BufferListView::remove_prefix"))) :=
  removeFront_shows (fun _ => rfl) Buffer.yields_removePrefix buffers n

theorem exists_removePrefix {buffers : BufferList} {n : ℕ}
    (h : n ≤ buffers.size) :
    ∃ rest, buffers.removePrefix n = (rest, .ok ()) ∧
      (BufferViewList.ofBufferList buffers).removePrefix n =
        (BufferViewList.ofBufferList rest, .ok ()) ∧
      rest.concatenate = buffers.concatenate.drop n := by
  have hviews : n ≤ (BufferViewList.ofBufferList buffers).flatten.length := by
    rw [BufferViewList.flatten_ofBufferList, length_concatenate]
    exact h
  obtain ⟨views, hrun, hleft⟩ := exists_removeFrontStrings
    (Exception.outOfRange "BufferListView::remove_prefix") hviews
  rcases buffers.removePrefix_cases n with
    ⟨rest, hlist, hview⟩ | ⟨-, hview⟩
  · refine ⟨rest, hlist, hview, ?_⟩
    obtain rfl : BufferViewList.ofBufferList rest = views :=
      congrArg Prod.fst (hview.symm.trans hrun)
    rw [← BufferViewList.flatten_ofBufferList, hleft,
      BufferViewList.flatten_ofBufferList]
  · cases congrArg Prod.snd (hview.symm.trans hrun)

theorem removePrefix_of_lt {buffers : BufferList} {n : ℕ}
    (h : buffers.size < n) :
    buffers.removePrefix n =
        ([], .error (.outOfRange "BufferList::remove_prefix")) ∧
      (BufferViewList.ofBufferList buffers).removePrefix n =
        ([], .error (.outOfRange "BufferListView::remove_prefix")) := by
  have hviews : (BufferViewList.ofBufferList buffers).flatten.length < n := by
    rw [BufferViewList.flatten_ofBufferList, length_concatenate]
    exact h
  have hrun := removeFrontStrings_of_lt
    (Exception.outOfRange "BufferListView::remove_prefix") hviews
  rcases buffers.removePrefix_cases n with ⟨rest, -, hview⟩ | hboth
  · cases congrArg Prod.snd (hview.symm.trans hrun)
  · exact hboth

/-- **Removing a prefix.**  As long as there are `n` bytes, whatever the buffers
that hold them, the first `n` are removed from the list and from a view of it,
and the view still shows the list.  Otherwise both throw. -/
theorem removePrefix_spec (buffers : BufferList) (n : ℕ) :
    (n ≤ buffers.size → ∃ rest,
      buffers.removePrefix n = (rest, .ok ()) ∧
        rest.concatenate = buffers.concatenate.drop n ∧
        rest.size = buffers.size - n ∧
        ∃ views : BufferViewList,
          (BufferViewList.ofBufferList buffers).removePrefix n =
              (views, .ok ()) ∧
            views = BufferViewList.ofBufferList rest ∧
            views.flatten = rest.concatenate ∧ views.size = rest.size) ∧
      (buffers.size < n →
        (buffers.removePrefix n).2 =
            .error (.outOfRange "BufferList::remove_prefix") ∧
          ((BufferViewList.ofBufferList buffers).removePrefix n).2 =
            .error (.outOfRange "BufferListView::remove_prefix")) := by
  constructor
  · intro h
    obtain ⟨rest, hlist, hview, hrest⟩ := exists_removePrefix h
    refine ⟨rest, hlist, hrest, ?_, _, hview, rfl,
      BufferViewList.flatten_ofBufferList rest,
      BufferViewList.size_ofBufferList rest⟩
    rw [← length_concatenate, hrest, List.length_drop, length_concatenate]
  · intro h
    obtain ⟨hlist, hview⟩ := removePrefix_of_lt h
    exact ⟨congrArg Prod.snd hlist, congrArg Prod.snd hview⟩

/-- An empty buffer and one that is partly consumed: three bytes end in the
second of these, and six are too many. -/
theorem removePrefix_spec_three_buffers :
    let buffers : BufferList :=
      [.ofString [1, 2], {},
        { storage := some [3, 4, 5, 6], startingOffset := 1 }]
    (∃ rest, buffers.removePrefix 3 = (rest, .ok ()) ∧
      rest.concatenate = [5, 6]) ∧
      (buffers.removePrefix 6).2 =
        .error (.outOfRange "BufferList::remove_prefix") := by
  intro buffers
  obtain ⟨rest, hrun, hrest, -⟩ :=
    (removePrefix_spec buffers 3).1 (by decide)
  exact ⟨⟨rest, hrun, hrest⟩, ((removePrefix_spec buffers 6).2 (by decide)).1⟩

end BufferList
end Sponge.Util
