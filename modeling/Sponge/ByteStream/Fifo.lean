import Sponge.ByteStream.Contents
import Sponge.Support.BoundedQueue
import Sponge.Support.Runs

/-!
# The byte stream is a bounded queue

The circular buffer refines a bounded queue of bytes: along every sequence of
operations both return the same values and agree in everything that can be
observed.
-/

namespace Sponge
namespace ByteStream

open Support

inductive Op where
  | write (data : List UInt8)
  | peekOutput (len : ℕ)
  | popOutput (len : ℕ)
  | read (len : ℕ)
  | endInput
deriving DecidableEq

/-- What an operation returns. -/
inductive Output where
  | nothing
  | count (n : ℕ)
  | bytes (data : List UInt8)
deriving DecidableEq

def step (s : ByteStream) : Op → ByteStream × Output
  | .write data => let (s, n) := s.write data; (s, .count n)
  | .peekOutput len => (s, .bytes (s.peekOutput len))
  | .popOutput len => (s.popOutput len, .nothing)
  | .read len => let (s, data) := s.read len; (s, .bytes data)
  | .endInput => (s.endInput, .nothing)

def run (capacity : ℕ) (ops : List Op) : ByteStream :=
  ops.foldl (fun s op => (s.step op).1) (new capacity)

/-! ## The abstract queue -/

/-- The operations on a bounded queue of bytes. -/
def queueStep (q : BoundedQueue UInt8) : Op → BoundedQueue UInt8 × Output
  | .write data => (q.push data, .count (min data.length q.room))
  | .peekOutput len => (q, .bytes (q.front len))
  | .popOutput len => (q.pop len, .nothing)
  | .read len => (q.pop len, .bytes (q.front len))
  | .endInput => (q.close, .nothing)

def queueRun (capacity : ℕ) (ops : List Op) : BoundedQueue UInt8 :=
  ops.foldl (fun q op => (queueStep q op).1) (.empty capacity)

/-- The queue that a byte stream stands for. -/
def toQueue (s : ByteStream) : BoundedQueue UInt8 where
  capacity := s.capacity
  items := s.contents
  closed := s.inputEnded
  length_le := by
    rw [length_contents]
    exact s.sz_le

/-! ## The refinement -/

theorem accepted_eq_take (s : ByteStream) (data : List UInt8) :
    s.accepted data = data.take (min data.length s.toQueue.room) := by
  rw [accepted, BoundedQueue.room, toQueue, length_contents]
  dsimp only
  rw [List.take_eq_take_iff]
  omega

theorem toQueue_write (s : ByteStream) (data : List UInt8) :
    (s.write data).1.toQueue = s.toQueue.push data ∧
      (s.write data).2 = min data.length s.toQueue.room := by
  constructor
  · apply BoundedQueue.ext
    · exact s.capacity_write data
    · change (s.write data).1.contents = s.contents ++ _
      rw [contents_write, accepted_eq_take]
    · exact s.inputEnded_write data
  · rw [write_snd, accepted_eq_take, List.length_take]
    omega

theorem front_toQueue (s : ByteStream) (len : ℕ) :
    s.toQueue.front len = s.peekOutput len := by
  rw [peekOutput_eq, BoundedQueue.front, toQueue, List.take_eq_take_iff]
  omega

theorem toQueue_popOutput (s : ByteStream) (len : ℕ) :
    (s.popOutput len).toQueue = s.toQueue.pop len := by
  apply BoundedQueue.ext
  · rfl
  · change (s.popOutput len).contents =
      s.contents.drop (min len s.contents.length)
    rw [contents_popOutput]
    rcases Nat.le_total len s.contents.length with hle | hge
    · rw [min_eq_left hle]
    · rw [min_eq_right hge, List.drop_eq_nil_of_le hge, List.drop_length]
  · rfl

/-- One operation on the stream is the same operation on the queue. -/
theorem toQueue_step (s : ByteStream) (op : Op) :
    ((s.step op).1.toQueue, (s.step op).2) = queueStep s.toQueue op := by
  cases op with
  | write data =>
      obtain ⟨hqueue, hcount⟩ := s.toQueue_write data
      simp only [step, queueStep, hqueue, hcount]
  | peekOutput len => simp only [step, queueStep, front_toQueue]
  | popOutput len => simp only [step, queueStep, toQueue_popOutput]
  | read len =>
      simp only [step, queueStep, read_eq, toQueue_popOutput, front_toQueue]
  | endInput => rfl

/-- A whole run of the stream is a run of the queue. -/
theorem toQueue_run (capacity : ℕ) (ops : List Op) :
    (run capacity ops).toQueue = queueRun capacity ops := by
  induction ops using List.reverseRecOn with
  | nil => rfl
  | append_singleton ops op ih =>
      rw [run, queueRun, List.foldl_append, List.foldl_append]
      change ((run capacity ops).step op).1.toQueue =
        (queueStep (queueRun capacity ops) op).1
      rw [← ih, ← toQueue_step]

theorem capacity_run (capacity : ℕ) (ops : List Op) :
    (run capacity ops).capacity = capacity := by
  refine foldl_invariant (I := fun s : ByteStream => s.capacity = capacity)
    ?_ ops rfl
  intro s op h
  have hstep := congrArg (fun result => result.1.capacity) (s.toQueue_step op)
  have hqueue : (queueStep s.toQueue op).1.capacity = s.capacity := by
    cases op <;> rfl
  exact (hstep.trans hqueue).trans h

/-- **The byte stream is a bounded FIFO.**  After every sequence of operations
the stream holds what the queue holds, every further operation returns what it
returns on the queue, and the observers agree with it; `read` is `peek_output`
followed by `pop_output`; and the two indices stay inside the buffer. -/
theorem refines_queue {capacity : ℕ} (hcapacity : 1 ≤ capacity)
    (ops : List Op) :
    let s := run capacity ops
    let q := queueRun capacity ops
    s.contents = q.items ∧
      (∀ op, (s.step op).2 = (queueStep q op).2) ∧
      s.bufferSize = q.items.length ∧
      s.remainingCapacity = q.room ∧
      s.eof = q.exhausted ∧
      (∀ len, s.read len = (s.popOutput len, s.peekOutput len)) ∧
      s.head < capacity ∧ s.tail < capacity ∧
      s.tail = (s.head + s.sz) % capacity := by
  intro s q
  have hqueue : s.toQueue = q := toQueue_run capacity ops
  have hcap : s.capacity = capacity := capacity_run capacity ops
  have hpos : 0 < s.capacity := by omega
  have hhead : s.head < s.capacity := by
    rw [← s.head_mod]
    exact Nat.mod_lt _ hpos
  have htail : s.tail < s.capacity := by
    rw [s.tail_eq]
    exact Nat.mod_lt _ hpos
  rw [← hqueue, ← hcap]
  refine ⟨rfl, ?_, ?_, ?_, ?_, s.read_eq, hhead, htail, s.tail_eq⟩
  · intro op
    rw [← toQueue_step]
  · exact s.length_contents.symm
  · rw [BoundedQueue.room, toQueue, length_contents, remainingCapacity]
  · simp only [eof, BoundedQueue.exhausted, toQueue]
    cases hcontents : s.contents with
    | nil =>
        have hsz := s.length_contents
        rw [hcontents] at hsz
        simp [← hsz]
    | cons c rest =>
        have hsz := s.length_contents
        rw [hcontents] at hsz
        simp [← hsz]

/-- Three bytes fit into a stream of three; after two are popped, the next two
wrap around the end of the buffer. -/
theorem refines_queue_wraps :
    let ops : List Op := [.write [1, 2, 3, 4], .popOutput 2, .write [5, 6]]
    (run 3 ops).contents = [3, 5, 6] ∧
      (run 3 ops).contents = (queueRun 3 ops).items := by
  intro ops
  obtain ⟨hcontents, -⟩ := refines_queue (show 1 ≤ 3 by decide) ops
  exact ⟨by decide, hcontents⟩

end ByteStream
end Sponge
