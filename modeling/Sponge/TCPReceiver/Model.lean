import Sponge.StreamReassembler.Session
import Sponge.TCPSegment

/-!
# The TCP receiver

`segment_received` translates the sequence number of a segment into a stream
index and passes the payload to the reassembler.

The member `_ackno` is an absolute 64-bit number and is a natural number here;
the optional wrapped number that the method `ackno()` returns is `ackno?`.
-/

namespace Sponge

structure TCPReceiver where
  reassembler : StreamReassembler
  capacity : ℕ
  synArrived : Bool
  isn : WrappingInt32
  ackno : ℕ
deriving DecidableEq

namespace TCPReceiver

def new (capacity : ℕ) : TCPReceiver where
  reassembler := .new capacity
  capacity := capacity
  synArrived := false
  isn := ⟨0⟩
  ackno := 0

def streamOut (r : TCPReceiver) : ByteStream := r.reassembler.output

def ackno? (r : TCPReceiver) : Option WrappingInt32 :=
  if r.synArrived then some (wrap r.ackno r.isn) else none

/-- The buffer never holds more than the capacity, so the difference is not
negative. -/
def windowSize (r : TCPReceiver) : ℕ :=
  r.capacity - r.streamOut.bufferSize

/-- The absolute sequence number after the window. -/
def edge (r : TCPReceiver) : ℕ := r.ackno + r.windowSize

def unassembledBytes (r : TCPReceiver) : ℕ :=
  r.reassembler.unassembledBytes

/-- Every SYN sets the initial sequence number. -/
def noteSyn (r : TCPReceiver) (seg : TCPSegment) : TCPReceiver :=
  if seg.header.syn then
    { r with synArrived := true, isn := seg.header.seqno }
  else r

/-- The stream index of the first payload byte, unless the segment is dropped:
before the SYN, at absolute number 0 without being a SYN, or at or beyond the
end of the window.  The index is `idx - 1 + header.syn` in 64-bit arithmetic,
where `idx = 0` occurs with a SYN only. -/
def streamIndex? (r : TCPReceiver) (seg : TCPSegment) : Option ℕ :=
  if r.synArrived then
    let idx := unwrap seg.header.seqno r.isn r.ackno
    if (idx = 0 ∧ seg.header.syn = false) ∨ r.windowSize + r.ackno ≤ idx then
      none
    else
      some (idx + seg.header.syn.toNat - 1)
  else none

def segmentReceived (r : TCPReceiver) (seg : TCPSegment) : TCPReceiver :=
  let r := r.noteSyn seg
  match r.streamIndex? seg with
  | none => r
  | some index =>
      let reassembler := r.reassembler.push seg.payload index seg.header.fin
      { r with
        reassembler
        ackno := reassembler.nextIdx + r.synArrived.toNat +
          reassembler.output.inputEnded.toNat }

@[simp] theorem reassembler_noteSyn (r : TCPReceiver) (seg : TCPSegment) :
    (r.noteSyn seg).reassembler = r.reassembler := by
  unfold noteSyn
  split <;> rfl

@[simp] theorem ackno_noteSyn (r : TCPReceiver) (seg : TCPSegment) :
    (r.noteSyn seg).ackno = r.ackno := by
  unfold noteSyn
  split <;> rfl

@[simp] theorem capacity_noteSyn (r : TCPReceiver) (seg : TCPSegment) :
    (r.noteSyn seg).capacity = r.capacity := by
  unfold noteSyn
  split <;> rfl

@[simp] theorem streamOut_noteSyn (r : TCPReceiver) (seg : TCPSegment) :
    (r.noteSyn seg).streamOut = r.streamOut := by
  simp [streamOut]

@[simp] theorem windowSize_noteSyn (r : TCPReceiver) (seg : TCPSegment) :
    (r.noteSyn seg).windowSize = r.windowSize := by
  simp [windowSize]

/-- What a segment does to the receiver: the SYN is noted, and the payload is
either dropped or pushed. -/
theorem segmentReceived_cases (r : TCPReceiver) (seg : TCPSegment) :
    ((r.noteSyn seg).streamIndex? seg = none ∧
        r.segmentReceived seg = r.noteSyn seg) ∨
      ∃ index, (r.noteSyn seg).streamIndex? seg = some index ∧
        (r.noteSyn seg).synArrived = true ∧
        r.segmentReceived seg =
          { r.noteSyn seg with
            reassembler :=
              r.reassembler.push seg.payload index seg.header.fin
            ackno :=
              (r.reassembler.push seg.payload index seg.header.fin).nidx + 1 +
                (r.reassembler.push seg.payload index
                  seg.header.fin).output.inputEnded.toNat } := by
  cases hindex : (r.noteSyn seg).streamIndex? seg with
  | none => exact Or.inl ⟨rfl, by simp [segmentReceived, hindex]⟩
  | some index =>
      have hsyn : (r.noteSyn seg).synArrived = true := by
        by_contra hnot
        simp [streamIndex?, hnot] at hindex
      refine Or.inr ⟨index, rfl, hsyn, ?_⟩
      simp [segmentReceived, hindex, hsyn, StreamReassembler.nextIdx]

@[simp] theorem synArrived_segmentReceived (r : TCPReceiver)
    (seg : TCPSegment) :
    (r.segmentReceived seg).synArrived = (r.noteSyn seg).synArrived := by
  rcases r.segmentReceived_cases seg with ⟨-, h⟩ | ⟨index, -, -, h⟩ <;>
    rw [h]

@[simp] theorem isn_segmentReceived (r : TCPReceiver) (seg : TCPSegment) :
    (r.segmentReceived seg).isn = (r.noteSyn seg).isn := by
  rcases r.segmentReceived_cases seg with ⟨-, h⟩ | ⟨index, -, -, h⟩ <;>
    rw [h]

@[simp] theorem capacity_segmentReceived (r : TCPReceiver)
    (seg : TCPSegment) : (r.segmentReceived seg).capacity = r.capacity := by
  rcases r.segmentReceived_cases seg with ⟨-, h⟩ | ⟨index, -, -, h⟩ <;>
    rw [h] <;> exact r.capacity_noteSyn seg

theorem streamIndex?_eq_some {r : TCPReceiver} {seg : TCPSegment}
    {index : ℕ} :
    r.streamIndex? seg = some index ↔
      r.synArrived = true ∧
        (seg.header.syn = false →
          unwrap seg.header.seqno r.isn r.ackno ≠ 0) ∧
        unwrap seg.header.seqno r.isn r.ackno < r.windowSize + r.ackno ∧
        index = unwrap seg.header.seqno r.isn r.ackno +
          seg.header.syn.toNat - 1 := by
  unfold streamIndex?
  by_cases hsyn : r.synArrived = true
  · simp only [hsyn, if_true, true_and]
    split_ifs with hdrop
    · simp only [false_iff, not_and]
      intro hzero hlt
      rcases hdrop with ⟨hidx, hflag⟩ | hge
      · exact absurd hidx (hzero hflag)
      · omega
    · simp only [not_or, not_and, Nat.not_le] at hdrop
      constructor
      · intro h
        exact ⟨fun hflag hidx => hdrop.1 hidx hflag, hdrop.2,
          (Option.some.inj h).symm⟩
      · rintro ⟨-, -, rfl⟩
        rfl
  · simp [hsyn]

end TCPReceiver
end Sponge
