import Sponge.ByteStream.Contents
import Sponge.EventLoop.Passes

/-!
# Copying between a socket and the terminal

`bidirectional_stream_copy` copies the input to a socket, and what comes from the
socket to the output.  Each way has a byte stream in the middle, a rule that
fills it and a rule that drains it; the two ways differ in their descriptors and
in how they pass on the end of the stream.
-/

namespace Sponge
namespace StreamCopy

/-! ## The world -/

inductive Fd where
  | input
  | output
  | socket
deriving DecidableEq

inductive Way where
  | outbound
  | inbound
deriving DecidableEq

namespace Way

def other : Way → Way
  | .outbound => .inbound
  | .inbound => .outbound

/-- What the way reads from. -/
def source : Way → Fd
  | .outbound => .input
  | .inbound => .socket

/-- What the way writes to. -/
def sink : Way → Fd
  | .outbound => .socket
  | .inbound => .output

end Way

/-- The descriptors, `_outbound` and `_inbound`, and for each way whether its
end was passed on. -/
structure World where
  fd : Fd → FileDescriptor
  stream : Way → ByteStream
  shutdown : Way → Bool

def maxCopyLength : ℕ := 65536

def bufferSize : ℕ := 1048576

namespace World

/-- The program begins with streams of the given size. -/
def new (fd : Fd → FileDescriptor) (size : ℕ) : World where
  fd := fd
  stream _ := .new size
  shutdown _ := false

def setFd (w : World) (i : Fd) (f : FileDescriptor) : World :=
  { w with fd := Function.update w.fd i f }

def setStream (w : World) (way : Way) (s : ByteStream) : World :=
  { w with stream := Function.update w.stream way s }

def endInput (way : Way) (w : World) : World :=
  w.setStream way (w.stream way).endInput

/-! ## The callbacks -/

/-- Rules 1 and 3: read into the stream. -/
def fill (way : Way) (w : World) : World × Except Failure Unit :=
  match (w.fd way.source).read (w.stream way).remainingCapacity with
  | (f, .error e) => (w.setFd way.source f, .error e)
  | (f, .ok data) =>
      let w := w.setFd way.source f
      let w := w.setStream way ((w.stream way).write data).1
      (if f.eof then w.endInput way else w, .ok ())

/-- The end of the stream is passed on: the socket is shut down for writing, and
the output is closed. -/
def finish (way : Way) (w : World) : World × Except Failure Unit :=
  let (f, result) :=
    match way with
    | .outbound => (w.fd .socket).shutdownWr
    | .inbound => (w.fd .output).close
  let w := w.setFd way.sink f
  match result with
  | .error e => (w, .error e)
  | .ok () =>
      ({ w with shutdown := Function.update w.shutdown way true }, .ok ())

/-- Rules 2 and 4: write from the stream. -/
def drain (way : Way) (w : World) : World × Except Failure Unit :=
  let bytesToWrite := min maxCopyLength (w.stream way).bufferSize
  match (w.fd way.sink).write [(w.stream way).peekOutput bytesToWrite]
      false with
  | (f, .error e) => (w.setFd way.sink f, .error e)
  | (f, .ok bytesWritten) =>
      let w := w.setFd way.sink f
      let w := w.setStream way ((w.stream way).popOutput bytesWritten)
      if (w.stream way).eof then w.finish way else (w, .ok ())

end World

/-! ## The rules -/

inductive Name where
  | fill (way : Way)
  | drain (way : Way)
deriving DecidableEq

def rule : Name → Rule World
  | .fill way =>
      { fd := fun w => w.fd way.source
        direction := .pollIn
        callback := World.fill way
        interest := fun w =>
          !(w.stream way).error && 0 < (w.stream way).remainingCapacity &&
            !(w.stream way.other).error
        cancel := World.endInput way }
  | .drain way =>
      { fd := fun w => w.fd way.sink
        direction := .pollOut
        callback := World.drain way
        interest := fun w =>
          !(w.stream way).bufferEmpty ||
            ((w.stream way).eof && !w.shutdown way)
        cancel := World.endInput way }

/-- The rules in the order in which they are added. -/
def rules : List Name :=
  [.fill .outbound, .drain .outbound, .fill .inbound, .drain .inbound]

/-- The program from its start, for the given answers of `poll`. -/
def run (fd : Fd → FileDescriptor) (size : ℕ) (answers : List PollAnswer) :
    EventLoop.Loop Name World :=
  answers.foldl (EventLoop.Loop.step rule) ⟨rules, .new fd size, none⟩

/-- With the sizes of the source. -/
def bidirectionalStreamCopy (fd : Fd → FileDescriptor)
    (answers : List PollAnswer) : EventLoop.Loop Name World :=
  run fd bufferSize answers

/-! ## What the callbacks do -/

section Callbacks

variable {way : Way} {w : World}

@[simp] theorem fd_setFd (i : Fd) (f : FileDescriptor) :
    (w.setFd i f).fd = Function.update w.fd i f := rfl

@[simp] theorem stream_setFd (i : Fd) (f : FileDescriptor) :
    (w.setFd i f).stream = w.stream := rfl

@[simp] theorem shutdown_setFd (i : Fd) (f : FileDescriptor) :
    (w.setFd i f).shutdown = w.shutdown := rfl

@[simp] theorem fd_setStream (s : ByteStream) :
    (w.setStream way s).fd = w.fd := rfl

@[simp] theorem stream_setStream (s : ByteStream) :
    (w.setStream way s).stream = Function.update w.stream way s := rfl

@[simp] theorem shutdown_setStream (s : ByteStream) :
    (w.setStream way s).shutdown = w.shutdown := rfl

@[simp] theorem fd_endInput : (w.endInput way).fd = w.fd := rfl

@[simp] theorem stream_endInput :
    (w.endInput way).stream =
      Function.update w.stream way (w.stream way).endInput := rfl

@[simp] theorem shutdown_endInput :
    (w.endInput way).shutdown = w.shutdown := rfl

theorem setStream_self (w : World) (way : Way) :
    w.setStream way (w.stream way) = w := by
  rw [World.setStream, Function.update_eq_self]

/-- What filling does: it appends to the stream what it has read, and ends the
stream at the end of the file. -/
structure Fills (way : Way) (data : List UInt8) (w w' : World) : Prop where
  fd : ∀ i, i ≠ way.source → w'.fd i = w.fd i
  stream : ∀ x, x ≠ way → w'.stream x = w.stream x
  shutdown : w'.shutdown = w.shutdown
  writing : (w.fd way.source).SameWriting (w'.fd way.source)
  received : (w'.fd way.source).received = (w.fd way.source).received ++ data
  contents : (w'.stream way).contents = (w.stream way).contents ++ data
  error : (w'.stream way).error = (w.stream way).error
  capacity : (w'.stream way).capacity = (w.stream way).capacity
  eof : (w.fd way.source).eof = true → (w'.fd way.source).eof = true
  ended : (w.stream way).inputEnded = true → (w'.stream way).inputEnded = true
  ends : (w'.stream way).inputEnded = true →
    (w.stream way).inputEnded = true ∨ (w'.fd way.source).eof = true

/-- What is put in the place of a descriptor and of a stream. -/
theorem Fills.of_setStream {data : List UInt8} {f : FileDescriptor}
    {s : ByteStream} (hwriting : (w.fd way.source).SameWriting f)
    (hreceived : f.received = (w.fd way.source).received ++ data)
    (hcontents : s.contents = (w.stream way).contents ++ data)
    (herror : s.error = (w.stream way).error)
    (hcapacity : s.capacity = (w.stream way).capacity)
    (heof : (w.fd way.source).eof = true → f.eof = true)
    (hended : (w.stream way).inputEnded = true → s.inputEnded = true)
    (hends : s.inputEnded = true →
      (w.stream way).inputEnded = true ∨ f.eof = true) :
    Fills way data w ((w.setFd way.source f).setStream way s) := by
  refine ⟨?_, ?_, rfl, ?_, ?_, ?_, ?_, ?_, ?_, ?_, ?_⟩
  · intro i hne
    exact Function.update_of_ne hne _ _
  · intro x hne
    exact Function.update_of_ne hne _ _
  all_goals simpa

theorem fill_spec (way : Way) (w : World) :
    ∃ data, Fills way data w (w.fill way).1 := by
  have hwriting := (w.fd way.source).sameWriting_read
    (w.stream way).remainingCapacity
  have heof := (w.fd way.source).eof_read (w.stream way).remainingCapacity
  rcases hread : (w.fd way.source).read (w.stream way).remainingCapacity with
    ⟨f, e | data⟩
  · have hstrings := FileDescriptor.readStrings_read_of_error
      (congrArg Prod.snd hread)
    rw [hread] at hwriting heof hstrings
    have hfill : (w.fill way).1 =
        (w.setFd way.source f).setStream way (w.stream way) := by
      simp only [World.fill, hread]
      exact (setStream_self (w.setFd way.source f) way).symm
    rw [hfill]
    refine ⟨[], Fills.of_setStream hwriting ?_ ?_ rfl rfl heof id Or.inl⟩
    · rw [List.append_nil]
      exact congrArg List.flatten hstrings
    · rw [List.append_nil]
  · obtain ⟨hle, -⟩ := FileDescriptor.read_of_ok (congrArg Prod.snd hread)
    have hreceived := FileDescriptor.received_read_of_ok
      (congrArg Prod.snd hread)
    rw [hread] at hwriting heof hreceived
    have hcontents : ((w.stream way).write data).1.contents =
        (w.stream way).contents ++ data := by
      rw [ByteStream.contents_write, ByteStream.accepted_of_le hle]
    have hended := ByteStream.inputEnded_write (w.stream way) data
    by_cases hend : f.eof = true
    · have hfill : (w.fill way).1 = (w.setFd way.source f).setStream way
          ((w.stream way).write data).1.endInput := by
        simp [World.fill, hread, hend, World.endInput, World.setStream]
      rw [hfill]
      exact ⟨data, Fills.of_setStream hwriting hreceived hcontents
        (ByteStream.error_write _ _) (ByteStream.capacity_write _ _) heof
        (fun _ => rfl) fun _ => Or.inr hend⟩
    · have hfill : (w.fill way).1 = (w.setFd way.source f).setStream way
          ((w.stream way).write data).1 := by
        simp [World.fill, hread, hend]
      rw [hfill]
      exact ⟨data, Fills.of_setStream hwriting hreceived hcontents
        (ByteStream.error_write _ _) (ByteStream.capacity_write _ _) heof
        hended.trans fun h => Or.inl (hended.symm.trans h)⟩

/-- The end of the stream has reached the descriptor that the way writes to. -/
def World.PassedOn (w : World) : Way → Prop
  | .outbound => (w.fd .socket).shutWr = true
  | .inbound => (w.fd .output).closed = true

/-- The end is passed on, or nothing happens. -/
theorem finish_cases (way : Way) (w : World) :
    (∃ attempt, w.finish way = (w, .error (.unixError attempt))) ∨
      ∃ f, w.finish way =
          ({ w.setFd way.sink f with
              shutdown := Function.update w.shutdown way true }, .ok ()) ∧
        f.received = (w.fd way.sink).received ∧
        f.written = (w.fd way.sink).written ∧
        (f.writeCount = (w.fd way.sink).writeCount ∨
          f.writeCount = (w.fd way.sink).writeCount + 1) ∧
        (way = .inbound ∨ f.eof = (w.fd way.sink).eof ∧
          f.closed = (w.fd way.sink).closed) ∧
        (w.setFd way.sink f).PassedOn way := by
  have hsame : ∀ i : Fd, w.setFd i (w.fd i) = w := by
    intro i
    rw [World.setFd, Function.update_eq_self]
  cases way with
  | outbound =>
      by_cases hworks : (w.fd .socket).shutdownWorks = true
      · let f := { w.fd .socket with shutWr := true }.registerWrite
        refine Or.inr ⟨f, ?_, rfl, rfl, Or.inr rfl, Or.inr ⟨rfl, rfl⟩, rfl⟩
        simp only [World.finish, FileDescriptor.shutdownWr, if_pos hworks]
        rfl
      · refine Or.inl ⟨"shutdown", ?_⟩
        simp only [World.finish, FileDescriptor.shutdownWr, if_neg hworks,
          Way.sink, hsame]
  | inbound =>
      by_cases hworks : (w.fd .output).closeWorks = true
      · let f := { w.fd .output with eof := true, closed := true }
        refine Or.inr ⟨f, ?_, rfl, rfl, Or.inl rfl, Or.inl rfl, rfl⟩
        simp only [World.finish, FileDescriptor.close, if_pos hworks]
        rfl
      · refine Or.inl ⟨"close", ?_⟩
        simp only [World.finish, FileDescriptor.close, if_neg hworks,
          Way.sink, hsame]

/-- What draining does: the first `n` bytes of the stream move to the sink, and
the end is passed on when there is nothing left. -/
structure Drains (way : Way) (n : ℕ) (w w' : World) : Prop where
  fd : ∀ i, i ≠ way.sink → w'.fd i = w.fd i
  stream : ∀ x, x ≠ way → w'.stream x = w.stream x
  shutdown : ∀ x, x ≠ way → w'.shutdown x = w.shutdown x
  received : (w'.fd way.sink).received = (w.fd way.sink).received
  written : (w'.fd way.sink).written =
    (w.fd way.sink).written ++ (w.stream way).contents.take n
  contents : (w'.stream way).contents = (w.stream way).contents.drop n
  error : (w'.stream way).error = (w.stream way).error
  capacity : (w'.stream way).capacity = (w.stream way).capacity
  ended : (w'.stream way).inputEnded = (w.stream way).inputEnded
  shut : w'.shutdown way = w.shutdown way ∨
    w'.shutdown way = true ∧ (w'.stream way).eof = true
  sink : (w'.fd way.sink).eof = (w.fd way.sink).eof ∧
      (w'.fd way.sink).closed = (w.fd way.sink).closed ∨
    way = .inbound ∧ w'.shutdown way = true
  passed : (w.shutdown way = true → w.PassedOn way) →
    w'.shutdown way = true → w'.PassedOn way

/-- The world after the write, before the end is passed on. -/
theorem Drains.of_setStream {f : FileDescriptor} {s : ByteStream} {n : ℕ}
    (hreading : (w.fd way.sink).SameReading f)
    (hwritten : f.written =
      (w.fd way.sink).written ++ (w.stream way).contents.take n)
    (hcontents : s.contents = (w.stream way).contents.drop n)
    (herror : s.error = (w.stream way).error)
    (hcapacity : s.capacity = (w.stream way).capacity)
    (hended : s.inputEnded = (w.stream way).inputEnded) :
    Drains way n w ((w.setFd way.sink f).setStream way s) := by
  have hreceived := hreading.received
  have heof := hreading.eof
  have hclosed := hreading.closed
  refine ⟨?_, ?_, fun _ _ => rfl, ?_, ?_, ?_, ?_, ?_, ?_, Or.inl rfl,
    Or.inl ⟨?_, ?_⟩, ?_⟩
  · intro i hne
    exact Function.update_of_ne hne _ _
  · intro x hne
    exact Function.update_of_ne hne _ _
  · simpa
  · simpa
  · simpa
  · simpa
  · simpa
  · simpa
  · simpa
  · simpa
  · intro hold hshut
    have hpassed := hold hshut
    cases way with
    | outbound => exact hreading.shutWr.trans hpassed
    | inbound => exact hclosed.trans hpassed

theorem Drains.finish {w' : World} {n : ℕ} (h : Drains way n w w')
    (hend : (w'.stream way).eof = true) :
    Drains way n w (w'.finish way).1 := by
  rcases finish_cases way w' with
    ⟨e, hsame⟩ | ⟨f, hfinish, hreceived, hwritten, -, hsink, hpassed⟩
  · rw [hsame]
    exact h
  · rw [hfinish]
    refine ⟨?_, h.stream, ?_, ?_, ?_, h.contents, h.error, h.capacity, h.ended,
      ?_, ?_, fun _ _ => hpassed⟩
    · intro i hne
      exact (Function.update_of_ne hne _ _).trans (h.fd i hne)
    · intro x hne
      exact (Function.update_of_ne hne _ _).trans (h.shutdown x hne)
    · simpa [hreceived] using h.received
    · simpa [hwritten] using h.written
    · exact Or.inr ⟨Function.update_self _ _ _, hend⟩
    · rcases hsink with rfl | ⟨heof, hclosed⟩
      · exact Or.inr ⟨rfl, by simp⟩
      · rcases h.sink with hold | ⟨rfl, -⟩
        · left
          simpa [heof, hclosed] using hold
        · exact Or.inr ⟨rfl, by simp⟩

/-- A write fails and nothing was taken, or the first bytes of the stream were
taken by one call. -/
theorem drain_cases (way : Way) (w : World) :
    ∃ f, (w.fd way.sink).SameReading f ∧
      ((∃ e ∈ FileDescriptor.writeFailures,
          w.drain way = (w.setFd way.sink f, .error e) ∧
          f.written = (w.fd way.sink).written) ∨
        ∃ count w', w' = (w.setFd way.sink f).setStream way
            ((w.stream way).popOutput count) ∧
          w.drain way = (if (w'.stream way).eof = true then w'.finish way
            else (w', .ok ())) ∧
          f.written = (w.fd way.sink).written ++
            (w.stream way).contents.take count ∧
          f.writeCount = (w.fd way.sink).writeCount + 1) := by
  obtain ⟨n, hle, hwritten, hreading, hok, herror⟩ :=
    (w.fd way.sink).write_once ((w.stream way).peekOutput
      (min maxCopyLength (w.stream way).bufferSize))
  have hfront : ((w.stream way).peekOutput
      (min maxCopyLength (w.stream way).bufferSize)).take n =
        (w.stream way).contents.take n := by
    rw [ByteStream.peekOutput_eq] at hle ⊢
    rw [List.take_take, Nat.min_eq_left]
    exact hle.trans (List.length_take_le _ _)
  rw [hfront] at hwritten
  rcases hwrite : (w.fd way.sink).write [(w.stream way).peekOutput
      (min maxCopyLength (w.stream way).bufferSize)] false with ⟨f, e | count⟩
  · rw [hwrite] at hwritten hreading herror
    obtain ⟨rfl, hmem⟩ := herror e rfl
    refine ⟨f, hreading, Or.inl ⟨e, hmem, ?_, ?_⟩⟩
    · simp only [World.drain, hwrite]
    · simpa using hwritten
  · rw [hwrite] at hwritten hreading hok
    obtain ⟨rfl, hcount⟩ := hok count rfl
    refine ⟨f, hreading, Or.inr ⟨count, _, rfl, ?_, hwritten, hcount⟩⟩
    simp only [World.drain, hwrite]
    rfl

theorem drain_spec (way : Way) (w : World) :
    ∃ n, Drains way n w (w.drain way).1 := by
  obtain ⟨f, hreading, ⟨e, -, hdrain, hwritten⟩ |
    ⟨count, w', hw', hdrain, hwritten, -⟩⟩ := drain_cases way w
  · refine ⟨0, ?_⟩
    rw [hdrain, ← setStream_self (w.setFd way.sink f) way]
    exact Drains.of_setStream hreading (by simpa using hwritten) rfl rfl rfl rfl
  · have hstream : Drains way count w w' := by
      rw [hw']
      exact Drains.of_setStream hreading hwritten
        (ByteStream.contents_popOutput _ _) rfl rfl rfl
    refine ⟨count, ?_⟩
    rw [hdrain]
    split
    · rename_i hend
      exact hstream.finish hend
    · exact hstream

end Callbacks

end StreamCopy
end Sponge
