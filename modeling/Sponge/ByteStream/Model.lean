import Sponge.Support.Ring

/-!
# The byte stream

`ByteStream` is a bounded in-order stream kept in a circular buffer.  The
relations between the indices that every operation keeps are fields of the
structure, so that a stream whose `tail` is not where `head` and `sz` put it
cannot be built.

Sizes and indices are natural numbers; the two byte counters are `unsigned` in
the source and are reduced modulo `2 ^ 32`.
-/

namespace Sponge

open Support

structure ByteStream where
  inputEnded : Bool
  readBytes : ℕ
  writeBytes : ℕ
  buf : List UInt8
  head : ℕ
  tail : ℕ
  sz : ℕ
  capacity : ℕ
  error : Bool
  buf_length : buf.length = capacity + 1
  head_mod : head % capacity = head
  tail_eq : tail = (head + sz) % capacity
  sz_le : sz ≤ capacity
deriving DecidableEq

namespace ByteStream

/-- The constructor: `capacity + 1` cells holding the character `0`. -/
def new (capacity : ℕ) : ByteStream where
  inputEnded := false
  readBytes := 0
  writeBytes := 0
  buf := List.replicate (capacity + 1) 48
  head := 0
  tail := 0
  sz := 0
  capacity := capacity
  error := false
  buf_length := by simp
  head_mod := by simp
  tail_eq := by simp
  sz_le := Nat.zero_le _

/-- The condition of the write loop rules out exactly a full buffer. -/
theorem sz_lt_of_notFull {s : ByteStream}
    (h : s.tail ≠ s.head ∨ s.sz ≠ s.capacity) : s.sz < s.capacity := by
  have hle := s.sz_le
  rcases h with h | h
  · rcases Nat.lt_or_ge s.sz s.capacity with hlt | hge
    · exact hlt
    · have heq : s.sz = s.capacity := by omega
      have htail := s.tail_eq
      rw [heq, Nat.add_mod_right, s.head_mod] at htail
      exact absurd htail h
  · omega

/-- One turn of the write loop: store a byte at `tail` and advance. -/
def storeByte (s : ByteStream) (c : UInt8)
    (h : s.tail ≠ s.head ∨ s.sz ≠ s.capacity) : ByteStream :=
  { s with
    buf := s.buf.set s.tail c
    tail := (s.tail + 1) % s.capacity
    sz := s.sz + 1
    buf_length := by simpa using s.buf_length
    tail_eq := by rw [s.tail_eq, Nat.mod_add_mod, Nat.add_assoc]
    sz_le := sz_lt_of_notFull h }

/-- The loop of `write`, over the data not yet stored; `idx` counts the bytes
stored so far. -/
def writeLoop (s : ByteStream) (idx : ℕ) : List UInt8 → ByteStream × ℕ
  | [] => (s, idx)
  | c :: data =>
      if h : s.tail ≠ s.head ∨ s.sz ≠ s.capacity then
        (s.storeByte c h).writeLoop (idx + 1) data
      else
        (s, idx)

def write (s : ByteStream) (data : List UInt8) : ByteStream × ℕ :=
  let (s, idx) := s.writeLoop 0 data
  ({ s with writeBytes := (s.writeBytes + idx) % 2 ^ 32 }, idx)

def peekOutput (s : ByteStream) (len : ℕ) : List UInt8 :=
  ringRead s.buf 0 s.capacity s.head (min len s.sz)

/-- With a capacity of 0 the source divides by zero here, which ends the program;
the model goes on with a stream that stays empty.  What is shown of a run holds
then of the part before that. -/
def popOutput (s : ByteStream) (len : ℕ) : ByteStream :=
  let sz := min len s.sz
  { s with
    head := (s.head + sz) % s.capacity
    sz := s.sz - sz
    readBytes := (s.readBytes + sz) % 2 ^ 32
    head_mod := Nat.mod_mod _ _
    tail_eq := by
      rw [s.tail_eq, Nat.mod_add_mod]
      congr 1
      omega
    sz_le := by
      have := s.sz_le
      omega }

/-- The loop of `read`: the bytes taken and the advanced head. -/
def readLoop (s : ByteStream) : ℕ → ℕ → List UInt8 × ℕ
  | head, 0 => ([], head)
  | head, n + 1 =>
      let (ret, last) := s.readLoop ((head + 1) % s.capacity) n
      (s.buf.getD head 0 :: ret, last)

/-- Where the read loop stops and what it returns. -/
theorem readLoop_eq (s : ByteStream) {head : ℕ}
    (hhead : head % s.capacity = head) (n : ℕ) :
    s.readLoop head n =
      (ringRead s.buf 0 s.capacity head n, (head + n) % s.capacity) := by
  induction n generalizing head with
  | zero => simp [readLoop, ringRead, hhead]
  | succ n ih =>
      have hnext := @ih ((head + 1) % s.capacity) (Nat.mod_mod _ _)
      simp only [readLoop, hnext, ringRead, Nat.mod_add_mod]
      rw [Nat.add_assoc, Nat.add_comm 1 n]

def read (s : ByteStream) (len : ℕ) : ByteStream × List UInt8 :=
  let sz := min len s.sz
  let loop := s.readLoop s.head sz
  ({ s with
      head := loop.2
      sz := s.sz - sz
      readBytes := (s.readBytes + loop.1.length) % 2 ^ 32
      head_mod := by simp [loop, readLoop_eq s s.head_mod]
      tail_eq := by
        simp only [loop, readLoop_eq s s.head_mod]
        rw [s.tail_eq, Nat.mod_add_mod]
        congr 1
        omega
      sz_le := by
        have := s.sz_le
        omega },
    loop.1)

def endInput (s : ByteStream) : ByteStream :=
  { s with inputEnded := true }

def setError (s : ByteStream) : ByteStream :=
  { s with error := true }

def bufferSize (s : ByteStream) : ℕ := s.sz

def bufferEmpty (s : ByteStream) : Bool := s.sz == 0

def eof (s : ByteStream) : Bool := s.inputEnded && s.sz == 0

def bytesWritten (s : ByteStream) : ℕ := s.writeBytes

def bytesRead (s : ByteStream) : ℕ := s.readBytes

def remainingCapacity (s : ByteStream) : ℕ := s.capacity - s.sz

end ByteStream
end Sponge
