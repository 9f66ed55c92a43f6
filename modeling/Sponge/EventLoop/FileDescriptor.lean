import Sponge.Packet.Buffer

/-!
# File descriptors

Reading and writing through a descriptor.  A descriptor is shared by everybody
who holds it, and counts its reads and writes.

What the kernel answers to the coming calls is part of the state: for each call
a result, or nothing if the call fails; when there is no answer left the call
fails too.  What each call of `read` has returned and each call of `writev` has
taken is remembered, and whether the descriptor was shut down for writing; no
operation looks at that.
-/

namespace Sponge

open Support

/-- What stops a call: a system call that failed, or another exception. -/
inductive Failure where
  | unixError (attempt : String)
  | exception (e : Exception)
deriving DecidableEq

/-- The `FDWrapper` that a descriptor refers to, and the kernel behind it. -/
structure FileDescriptor where
  eof : Bool := false
  closed : Bool := false
  readCount : UInt32 := 0
  writeCount : UInt32 := 0
  reads : List (Option (List UInt8)) := []
  writes : List (Option ℕ) := []
  shutdownWorks : Bool := true
  closeWorks : Bool := true
  readStrings : List (List UInt8) := []
  writtenStrings : List (List UInt8) := []
  shutWr : Bool := false
deriving DecidableEq

namespace FileDescriptor

/-- The bytes that were read, over all calls. -/
def received (f : FileDescriptor) : List UInt8 := f.readStrings.flatten

/-- The bytes that the kernel has taken, over all calls. -/
def written (f : FileDescriptor) : List UInt8 := f.writtenStrings.flatten

def registerRead (f : FileDescriptor) : FileDescriptor :=
  { f with readCount := f.readCount + 1 }

def registerWrite (f : FileDescriptor) : FileDescriptor :=
  { f with writeCount := f.writeCount + 1 }

/-! ## Reading -/

/-- The maximum size of a read. -/
def bufferSize : ℕ := 1024 * 1024

/-- A read of no bytes means the end of the file, unless none were asked
for. -/
def read (f : FileDescriptor) (limit : ℕ) :
    FileDescriptor × Except Failure (List UInt8) :=
  let sizeToRead := min bufferSize limit
  match f.reads with
  | [] => (f, .error (.unixError "read"))
  | none :: reads => ({ f with reads := reads }, .error (.unixError "read"))
  | some str :: reads =>
      let f :=
        { f with
          reads := reads
          eof := if 0 < limit ∧ str.length = 0 then true else f.eof }
      if sizeToRead < str.length then
        (f, .error (.exception
          (.runtimeError "read() read more than requested")))
      else
        ({ f with readStrings := f.readStrings ++ [str] }.registerRead,
          .ok str)

/-- Why `read` throws. -/
def readFailures : List Failure :=
  [.unixError "read",
    .exception (.runtimeError "read() read more than requested")]

/-- Everything of a descriptor that reading leaves alone. -/
structure SameWriting (f f' : FileDescriptor) : Prop where
  closed : f'.closed = f.closed
  writeCount : f'.writeCount = f.writeCount
  writes : f'.writes = f.writes
  writtenStrings : f'.writtenStrings = f.writtenStrings
  shutWr : f'.shutWr = f.shutWr

theorem SameWriting.written {f f' : FileDescriptor} (h : f.SameWriting f') :
    f'.written = f.written :=
  congrArg List.flatten h.writtenStrings

theorem sameWriting_read (f : FileDescriptor) (limit : ℕ) :
    f.SameWriting (f.read limit).1 := by
  unfold read
  split
  · exact ⟨rfl, rfl, rfl, rfl, rfl⟩
  · exact ⟨rfl, rfl, rfl, rfl, rfl⟩
  · dsimp only
    split <;> exact ⟨rfl, rfl, rfl, rfl, rfl⟩

/-- The end of the file is not forgotten. -/
theorem eof_read {f : FileDescriptor} (limit : ℕ) (h : f.eof = true) :
    (f.read limit).1.eof = true := by
  unfold read
  split
  · exact h
  · exact h
  · dsimp only
    split <;> simp only [registerRead, h, ite_self]

/-- A read that throws has returned nothing. -/
theorem readStrings_read_of_error {f : FileDescriptor} {limit : ℕ}
    {e : Failure} (h : (f.read limit).2 = .error e) :
    (f.read limit).1.readStrings = f.readStrings := by
  unfold read at h ⊢
  split at h
  · rfl
  · rfl
  · rename_i str reads hreads
    dsimp only at h ⊢
    split at h
    · rename_i hlt
      rw [if_pos hlt]
    · cases h

theorem read_error {f : FileDescriptor} {limit : ℕ} {e : Failure}
    (h : (f.read limit).2 = .error e) : e ∈ readFailures := by
  unfold read at h
  split at h
  · cases h
    exact List.mem_cons_self
  · cases h
    exact List.mem_cons_self
  · dsimp only at h
    split at h
    · cases h
      exact List.mem_cons_of_mem _ List.mem_cons_self
    · cases h

/-- A read that returns gives at most as many bytes as were asked for, and is
counted. -/
theorem read_of_ok {f : FileDescriptor} {limit : ℕ} {data : List UInt8}
    (h : (f.read limit).2 = .ok data) :
    data.length ≤ limit ∧
      (f.read limit).1.readStrings = f.readStrings ++ [data] ∧
      (f.read limit).1.readCount = f.readCount + 1 := by
  unfold read at h ⊢
  split at h
  · cases h
  · cases h
  · rename_i str reads hreads
    dsimp only at h ⊢
    split at h
    · cases h
    · rename_i hle
      cases h
      rw [if_neg hle]
      refine ⟨?_, rfl, rfl⟩
      exact (Nat.not_lt.mp hle).trans (Nat.min_le_right _ _)

theorem received_read_of_ok {f : FileDescriptor} {limit : ℕ}
    {data : List UInt8} (h : (f.read limit).2 = .ok data) :
    (f.read limit).1.received = f.received ++ data := by
  rw [received, (read_of_ok h).2.1]
  simp [received]

/-! ## Writing -/

/-- The loop of `write` over the answers of the kernel; `totalBytesWritten`
counts the bytes taken so far. -/
def writeLoop (writeAll : Bool) :
    List (Option ℕ) → Util.BufferViewList → ℕ → FileDescriptor →
      FileDescriptor × Except Failure ℕ
  | [], _, _, f => ({ f with writes := [] }, .error (.unixError "writev"))
  | none :: writes, _, _, f =>
      ({ f with writes := writes }, .error (.unixError "writev"))
  | some bytesWritten :: writes, buffer, totalBytesWritten, f =>
      let f := { f with writes := writes }
      if bytesWritten = 0 ∧ buffer.size ≠ 0 then
        (f, .error (.exception (.runtimeError
          "write returned 0 given non-empty input buffer")))
      else if buffer.size < bytesWritten then
        (f, .error (.exception (.runtimeError
          "write wrote more than length of input buffer")))
      else
        let f :=
          { f with
            writtenStrings :=
              f.writtenStrings ++ [buffer.flatten.take bytesWritten]
          }.registerWrite
        match buffer.removePrefix bytesWritten with
        | (_, .error e) => (f, .error (.exception e))
        | (buffer, .ok ()) =>
            if writeAll ∧ buffer.size ≠ 0 then
              writeLoop writeAll writes buffer
                (totalBytesWritten + bytesWritten) f
            else (f, .ok (totalBytesWritten + bytesWritten))

def write (f : FileDescriptor) (buffer : Util.BufferViewList)
    (writeAll : Bool) : FileDescriptor × Except Failure ℕ :=
  writeLoop writeAll f.writes buffer 0 f

/-- Why `write` throws. -/
def writeFailures : List Failure :=
  [.unixError "writev",
    .exception (.runtimeError "write returned 0 given non-empty input buffer"),
    .exception (.runtimeError "write wrote more than length of input buffer")]

/-- Everything of a descriptor that writing leaves alone. -/
structure SameReading (f f' : FileDescriptor) : Prop where
  eof : f'.eof = f.eof
  closed : f'.closed = f.closed
  readCount : f'.readCount = f.readCount
  reads : f'.reads = f.reads
  readStrings : f'.readStrings = f.readStrings
  shutWr : f'.shutWr = f.shutWr

theorem SameReading.received {f f' : FileDescriptor} (h : f.SameReading f') :
    f'.received = f.received :=
  congrArg List.flatten h.readStrings

theorem SameReading.trans {f f' f'' : FileDescriptor}
    (h : f.SameReading f') (h' : f'.SameReading f'') : f.SameReading f'' where
  eof := h'.eof.trans h.eof
  closed := h'.closed.trans h.closed
  readCount := h'.readCount.trans h.readCount
  reads := h'.reads.trans h.reads
  readStrings := h'.readStrings.trans h.readStrings
  shutWr := h'.shutWr.trans h.shutWr

/-- What the loop has done when it stops: the kernel has taken the first `n`
bytes of the buffer.  If the loop returns, it returns the number of all bytes
that were taken; with `write_all` nothing of the buffer is left, and without it
there was one call.  The removal of the bytes that were taken never throws. -/
structure Wrote (writeAll : Bool) (buffer : Util.BufferViewList) (total n : ℕ)
    (f : FileDescriptor) (out : FileDescriptor × Except Failure ℕ) : Prop where
  le : n ≤ buffer.size
  written : out.1.written = f.written ++ buffer.flatten.take n
  reading : f.SameReading out.1
  returned : ∀ count, out.2 = .ok count → count = total + n ∧
    (buffer.size ≠ 0 → 0 < n) ∧ (writeAll = true → n = buffer.size) ∧
    (writeAll = false → out.1.writeCount = f.writeCount + 1)
  failed : ∀ e, out.2 = .error e →
    (writeAll = false → n = 0) ∧ e ∈ writeFailures

/-- A call that fails takes nothing. -/
theorem wrote_nothing {writeAll : Bool} {buffer : Util.BufferViewList}
    {total : ℕ} {f : FileDescriptor} {writes : List (Option ℕ)} {e : Failure}
    (he : e ∈ writeFailures) :
    Wrote writeAll buffer total 0 f
      ({ f with writes := writes }, .error e) where
  le := Nat.zero_le _
  written := by simp [FileDescriptor.written]
  reading := ⟨rfl, rfl, rfl, rfl, rfl, rfl⟩
  returned := by
    intro count hok
    cases hok
  failed := by
    intro e' he'
    cases he'
    exact ⟨fun _ => rfl, he⟩

/-- A view from which the kernel has taken `n` bytes shows the other ones. -/
theorem exists_removePrefix {buffer : Util.BufferViewList} {n : ℕ}
    (h : n ≤ buffer.size) :
    ∃ rest : Util.BufferViewList,
      buffer.removePrefix n = (rest, .ok ()) ∧
        rest.flatten = buffer.flatten.drop n ∧
        rest.size = buffer.size - n := by
  have hflatten : n ≤ buffer.flatten.length := by
    rw [List.length_flatten]
    exact h
  obtain ⟨rest, hrun, hrest⟩ := exists_removeFrontStrings
    (Exception.outOfRange "BufferListView::remove_prefix") hflatten
  refine ⟨rest, hrun, hrest, ?_⟩
  simp only [Util.BufferViewList.size]
  rw [← List.length_flatten, ← List.length_flatten, hrest, List.length_drop]

/-- The loop goes on after a call that has taken `k` bytes. -/
theorem Wrote.after_call {buffer rest : Util.BufferViewList} {total k n : ℕ}
    {f f' : FileDescriptor} {out : FileDescriptor × Except Failure ℕ}
    (h : Wrote true rest (total + k) n f' out) (hle : k ≤ buffer.size)
    (hrest : rest.flatten = buffer.flatten.drop k)
    (hsize : rest.size = buffer.size - k) (hmore : rest.size ≠ 0)
    (hreading : f.SameReading f')
    (hwritten : f'.written = f.written ++ buffer.flatten.take k) :
    Wrote true buffer total (k + n) f out where
  le := by
    have := h.le
    omega
  written := by
    rw [h.written, hwritten, hrest, List.append_assoc, List.take_add]
  reading := hreading.trans h.reading
  returned := by
    intro count hok
    obtain ⟨hcount, hpos, hall, -⟩ := h.returned count hok
    refine ⟨by omega, fun _ => ?_, fun _ => ?_, ?_⟩
    · have := hpos hmore
      omega
    · have := hall rfl
      omega
    · intro hfalse
      cases hfalse
  failed := by
    intro e he
    refine ⟨?_, (h.failed e he).2⟩
    intro hfalse
    cases hfalse

theorem exists_wrote_writeLoop (writeAll : Bool) (answers : List (Option ℕ))
    (buffer : Util.BufferViewList) (total : ℕ) (f : FileDescriptor) :
    ∃ n, Wrote writeAll buffer total n f
      (writeLoop writeAll answers buffer total f) := by
  induction answers generalizing buffer total f with
  | nil => exact ⟨0, wrote_nothing (by simp [writeFailures])⟩
  | cons answer answers ih =>
      cases answer with
      | none => exact ⟨0, wrote_nothing (by simp [writeFailures])⟩
      | some k =>
          unfold writeLoop
          by_cases hzero : k = 0 ∧ buffer.size ≠ 0
          · rw [if_pos hzero]
            exact ⟨0, wrote_nothing (by simp [writeFailures])⟩
          rw [if_neg hzero]
          by_cases hmore : buffer.size < k
          · rw [if_pos hmore]
            exact ⟨0, wrote_nothing (by simp [writeFailures])⟩
          rw [if_neg hmore]
          have hle := Nat.not_lt.mp hmore
          obtain ⟨rest, hrun, hrest, hsize⟩ := exists_removePrefix hle
          simp only [hrun]
          by_cases hagain : writeAll = true ∧ rest.size ≠ 0
          · obtain ⟨rfl, hleft⟩ := hagain
            rw [if_pos ⟨rfl, hleft⟩]
            obtain ⟨n, hn⟩ := ih rest (total + k) _
            exact ⟨k + n, hn.after_call hle hrest hsize hleft
              ⟨rfl, rfl, rfl, rfl, rfl, rfl⟩
              (by simp [written, registerWrite])⟩
          · rw [if_neg hagain]
            refine ⟨k, hle, by simp [written, registerWrite],
              ⟨rfl, rfl, rfl, rfl, rfl, rfl⟩, ?_, ?_⟩
            · intro count hok
              cases hok
              refine ⟨rfl, ?_, ?_, fun _ => rfl⟩
              · intro hsome
                exact Nat.pos_of_ne_zero fun hnone => hzero ⟨hnone, hsome⟩
              · intro hall
                have hempty : rest.size = 0 := by
                  by_contra hleft
                  exact hagain ⟨hall, hleft⟩
                omega
            · intro e he
              cases he

/-- **Writing through partial writes.**  Whatever the kernel answers to the calls
of `writev`, what it has taken when `write` stops is the beginning of the
buffer, without a gap or a repetition.  If `write` returns, then it returns the
number of bytes taken, which with `write_all` is all of them and otherwise is
positive unless the buffer is empty; and the removal of what was taken is never
the reason why it throws. -/
theorem write_takes_prefix (f : FileDescriptor) (buffer : Util.BufferViewList)
    (writeAll : Bool) :
    ∃ n ≤ buffer.size,
      (f.write buffer writeAll).1.written =
          f.written ++ buffer.flatten.take n ∧
        (∀ count, (f.write buffer writeAll).2 = .ok count →
          count = n ∧ (writeAll = true → n = buffer.size) ∧
            (buffer.size ≠ 0 → 0 < n)) ∧
        ∀ what, (f.write buffer writeAll).2 ≠
          .error (.exception (.outOfRange what)) := by
  obtain ⟨n, h⟩ := exists_wrote_writeLoop writeAll f.writes buffer 0 f
  refine ⟨n, h.le, h.written, ?_, ?_⟩
  · intro count hok
    obtain ⟨hcount, hpos, hall, -⟩ := h.returned count hok
    exact ⟨by omega, hall, hpos⟩
  · intro what hthrown
    have hmem := (h.failed _ hthrown).2
    simp [writeFailures] at hmem

/-- One call of `writev`: nothing was taken if it throws. -/
theorem write_once (f : FileDescriptor) (bytes : List UInt8) :
    ∃ n ≤ bytes.length,
      (f.write [bytes] false).1.written = f.written ++ bytes.take n ∧
        f.SameReading (f.write [bytes] false).1 ∧
        (∀ count, (f.write [bytes] false).2 = .ok count → count = n ∧
          (f.write [bytes] false).1.writeCount = f.writeCount + 1) ∧
        ∀ e, (f.write [bytes] false).2 = .error e →
          n = 0 ∧ e ∈ writeFailures := by
  obtain ⟨n, h⟩ := exists_wrote_writeLoop false f.writes [bytes] 0 f
  refine ⟨n, ?_, ?_, h.reading, ?_,
    fun e he => ⟨(h.failed e he).1 rfl, (h.failed e he).2⟩⟩
  · simpa [Util.BufferViewList.size] using h.le
  · simpa [write] using h.written
  · intro count hok
    obtain ⟨hcount, -, -, hcalls⟩ := h.returned count hok
    exact ⟨by omega, hcalls rfl⟩

/-! ## Closing -/

/-- `shutdown(SHUT_WR)`, which counts as a write. -/
def shutdownWr (f : FileDescriptor) : FileDescriptor × Except Failure Unit :=
  if f.shutdownWorks then
    ({ f with shutWr := true }.registerWrite, .ok ())
  else (f, .error (.unixError "shutdown"))

def close (f : FileDescriptor) : FileDescriptor × Except Failure Unit :=
  if f.closeWorks then ({ f with eof := true, closed := true }, .ok ())
  else (f, .error (.unixError "close"))

end FileDescriptor
end Sponge
