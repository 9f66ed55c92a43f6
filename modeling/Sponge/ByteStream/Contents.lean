import Sponge.ByteStream.Model

/-!
# The queue a byte stream holds

`ByteStream.contents` reads the circular buffer as a queue of bytes.  Each
operation is described by its effect on the queue; later modules use these
descriptions and never look at the indices.
-/

namespace Sponge
namespace ByteStream

open Support

/-- The buffered bytes, oldest first. -/
def contents (s : ByteStream) : List UInt8 :=
  ringRead s.buf 0 s.capacity s.head s.sz

@[simp] theorem length_contents (s : ByteStream) :
    s.contents.length = s.sz := by
  simp [contents]

@[simp] theorem bufferSize_eq (s : ByteStream) : s.bufferSize = s.sz := rfl

@[simp] theorem contents_new (capacity : ℕ) :
    (new capacity).contents = [] := rfl

@[simp] theorem sz_new (capacity : ℕ) : (new capacity).sz = 0 := rfl

@[simp] theorem capacity_new (capacity : ℕ) :
    (new capacity).capacity = capacity := rfl

@[simp] theorem inputEnded_new (capacity : ℕ) :
    (new capacity).inputEnded = false := rfl

theorem eof_iff {s : ByteStream} :
    s.eof = true ↔ s.inputEnded = true ∧ s.sz = 0 := by
  simp [eof]

/-! ## Writing -/

theorem contents_storeByte (s : ByteStream) (c : UInt8)
    (h : s.tail ≠ s.head ∨ s.sz ≠ s.capacity) :
    (s.storeByte c h).contents = s.contents ++ [c] := by
  have hlength := s.buf_length
  have htail := s.tail_eq
  unfold contents
  simp only [storeByte, htail]
  exact ringRead_set_succ s.head_mod (sz_lt_of_notFull h) (by omega)

/-- The write loop appends what fits and leaves the other fields alone. -/
theorem writeLoop_spec (s : ByteStream) (idx : ℕ) (data : List UInt8) :
    (s.writeLoop idx data).1.contents =
        s.contents ++ data.take (s.capacity - s.sz) ∧
      (s.writeLoop idx data).2 =
        idx + (data.take (s.capacity - s.sz)).length ∧
      (s.writeLoop idx data).1.capacity = s.capacity ∧
      (s.writeLoop idx data).1.inputEnded = s.inputEnded := by
  induction data generalizing s idx with
  | nil => simp [writeLoop]
  | cons c data ih =>
      by_cases h : s.tail ≠ s.head ∨ s.sz ≠ s.capacity
      · have hlt := sz_lt_of_notFull h
        obtain ⟨hcontents, hidx, hcap, hended⟩ := ih (s.storeByte c h) (idx + 1)
        have hroom : s.capacity - s.sz = s.capacity - (s.sz + 1) + 1 := by omega
        have hcapStore : (s.storeByte c h).capacity = s.capacity := rfl
        have hszStore : (s.storeByte c h).sz = s.sz + 1 := rfl
        rw [writeLoop, dif_pos h]
        rw [hcapStore, hszStore] at hcontents hidx
        refine ⟨?_, ?_, hcap, hended⟩
        · rw [hcontents, contents_storeByte, hroom, List.take_succ_cons]
          simp
        · rw [hidx, hroom, List.take_succ_cons]
          simp only [List.length_cons]
          omega
      · -- a full buffer: nothing is stored and no room was left
        have hfull : s.sz = s.capacity := by
          by_contra hne
          exact h (Or.inr hne)
        rw [writeLoop, dif_neg h]
        simp [hfull]

/-- The bytes of `data` that `write` accepts. -/
def accepted (s : ByteStream) (data : List UInt8) : List UInt8 :=
  data.take (s.capacity - s.sz)

theorem accepted_isPrefix (s : ByteStream) (data : List UInt8) :
    s.accepted data <+: data :=
  List.take_prefix _ _

theorem length_accepted (s : ByteStream) (data : List UInt8) :
    (s.accepted data).length = min (s.capacity - s.sz) data.length := by
  simp [accepted]

@[simp] theorem contents_write (s : ByteStream) (data : List UInt8) :
    (s.write data).1.contents = s.contents ++ s.accepted data :=
  (s.writeLoop_spec 0 data).1

@[simp] theorem write_snd (s : ByteStream) (data : List UInt8) :
    (s.write data).2 = (s.accepted data).length := by
  have h := (s.writeLoop_spec 0 data).2.1
  rw [Nat.zero_add] at h
  exact h

/-- What `write` returns tells which bytes it has taken. -/
theorem take_write_snd (s : ByteStream) (data : List UInt8) :
    data.take (s.write data).2 = s.accepted data := by
  rw [write_snd]
  exact (List.prefix_iff_eq_take.mp (s.accepted_isPrefix data)).symm

@[simp] theorem capacity_write (s : ByteStream) (data : List UInt8) :
    (s.write data).1.capacity = s.capacity :=
  (s.writeLoop_spec 0 data).2.2.1

@[simp] theorem inputEnded_write (s : ByteStream) (data : List UInt8) :
    (s.write data).1.inputEnded = s.inputEnded :=
  (s.writeLoop_spec 0 data).2.2.2

theorem error_writeLoop (s : ByteStream) (idx : ℕ) (data : List UInt8) :
    (s.writeLoop idx data).1.error = s.error := by
  induction data generalizing s idx with
  | nil => rfl
  | cons c data ih =>
      unfold writeLoop
      split
      · exact ih _ _
      · rfl

@[simp] theorem error_write (s : ByteStream) (data : List UInt8) :
    (s.write data).1.error = s.error :=
  s.error_writeLoop 0 data

/-- Data for which there is room are accepted as they are. -/
theorem accepted_of_le {s : ByteStream} {data : List UInt8}
    (h : data.length ≤ s.remainingCapacity) : s.accepted data = data :=
  List.take_of_length_le h

/-! ## Reading -/

theorem contents_eq_peek_append (s : ByteStream) (len : ℕ) :
    s.contents = s.peekOutput len ++ (s.popOutput len).contents := by
  have hsplit : ringRead s.buf 0 s.capacity s.head
      (min len s.sz + (s.sz - min len s.sz)) = _ :=
    ringRead_add s.head_mod _ _
  rw [show min len s.sz + (s.sz - min len s.sz) = s.sz by omega] at hsplit
  exact hsplit

@[simp] theorem peekOutput_eq (s : ByteStream) (len : ℕ) :
    s.peekOutput len = s.contents.take len := by
  have hlen : (s.peekOutput len).length = min len s.sz := by simp [peekOutput]
  have htake : s.contents.take len = s.contents.take (min len s.sz) := by
    rw [← length_contents, List.take_eq_take_iff]
    omega
  rw [htake, s.contents_eq_peek_append len, ← hlen, List.take_left]

@[simp] theorem contents_popOutput (s : ByteStream) (len : ℕ) :
    (s.popOutput len).contents = s.contents.drop len := by
  have hsplit := s.contents_eq_peek_append len
  rw [peekOutput_eq] at hsplit
  have htakedrop := List.take_append_drop len s.contents
  exact List.append_cancel_left (hsplit.symm.trans htakedrop.symm)

/-- `read` returns what `peek_output` would and leaves what `pop_output`
leaves. -/
theorem read_eq (s : ByteStream) (len : ℕ) :
    s.read len = (s.popOutput len, s.peekOutput len) := by
  simp [read, popOutput, peekOutput, readLoop_eq s s.head_mod]

@[simp] theorem read_snd (s : ByteStream) (len : ℕ) :
    (s.read len).2 = s.contents.take len := by
  rw [read_eq, peekOutput_eq]

@[simp] theorem contents_read (s : ByteStream) (len : ℕ) :
    (s.read len).1.contents = s.contents.drop len := by
  rw [read_eq, contents_popOutput]

@[simp] theorem sz_popOutput (s : ByteStream) (len : ℕ) :
    (s.popOutput len).sz = s.sz - len := by
  rw [← length_contents, contents_popOutput, List.length_drop,
    length_contents]

@[simp] theorem sz_read (s : ByteStream) (len : ℕ) :
    (s.read len).1.sz = s.sz - len := by
  rw [read_eq, sz_popOutput]

/-! ## Ending the input and errors -/

@[simp] theorem contents_endInput (s : ByteStream) :
    s.endInput.contents = s.contents := rfl

@[simp] theorem contents_setError (s : ByteStream) :
    s.setError.contents = s.contents := rfl

end ByteStream
end Sponge
