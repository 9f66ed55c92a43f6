import Sponge.ByteStream.Contents
import Sponge.Support.Size
import Sponge.TCPSegment

/-!
# The TCP sender

The retransmission timer with its queue of outstanding segments, and the sender
that cuts the outgoing stream into segments.

Absolute sequence numbers and byte counts are natural numbers.  The window is a
16-bit number, and the retransmission timeouts and the retransmission count,
which are `unsigned int` in the source, are reduced modulo `2 ^ 32`.

The segments that a sender makes carry their absolute sequence number and, once
they are stamped by the connection, the absolute acknowledgment number.  No
operation reads these two numbers; they are there to be spoken about.
-/

namespace Sponge

open Support

/-- A segment and the absolute numbers behind its wrapped ones. -/
structure SentSegment extends TCPSegment where
  absSeqno : ℕ
  absAckno : ℕ := 0
deriving DecidableEq

/-! ## The retransmission timer -/

structure Timer where
  running : Bool
  rto : ℕ
  baseRto : ℕ
  initialRto : ℕ
  consecutiveRetransmissions : ℕ
  outstandings : List (SentSegment × ℕ)
deriving DecidableEq

namespace Timer

def new (retxTimeout : UInt16) : Timer where
  running := false
  rto := retxTimeout.toNat
  baseRto := retxTimeout.toNat
  initialRto := retxTimeout.toNat
  consecutiveRetransmissions := 0
  outstandings := []

def on (t : Timer) : Timer := { t with running := true }

def pushOutstanding (t : Timer) (seg : SentSegment) (endSeqno : ℕ) : Timer :=
  { t with outstandings := t.outstandings ++ [(seg, endSeqno)] }

/-- The timer after `ticks` milliseconds and the segments it retransmits: the
oldest outstanding one when the timer expires.  The queue is not empty while
the timer runs. -/
def tickHandle (t : Timer) (ticks : ℕ) (windowSize : UInt16)
    (segmentsOut : List SentSegment) : Timer × List SentSegment :=
  if t.running then
    if t.rto ≤ ticks then
      let segmentsOut :=
        segmentsOut ++ (t.outstandings.head?.map Prod.fst).toList
      let t :=
        if windowSize ≠ 0 then
          { t with
            consecutiveRetransmissions :=
              (t.consecutiveRetransmissions + 1) % 2 ^ 32
            baseRto := t.baseRto * 2 % 2 ^ 32 }
        else t
      ({ t with rto := t.baseRto }, segmentsOut)
    else
      ({ t with rto := t.rto - ticks }, segmentsOut)
  else (t, segmentsOut)

/-- The loop of `ack_handle` over the outstanding segments; `ret` is the number
of sequence numbers that were acknowledged so far. -/
def ackLoop (t : Timer) (ackno ret : ℕ) :
    List (SentSegment × ℕ) → Timer × ℕ
  | [] => ({ t with outstandings := [] }, ret)
  | (seg, endSeqno) :: rest =>
      if ackno < endSeqno then
        ({ t with outstandings := (seg, endSeqno) :: rest }, ret)
      else
        { t with rto := t.initialRto, baseRto := t.initialRto }.ackLoop ackno
          (ret + seg.lengthInSequenceSpace) rest

def ackHandle (t : Timer) (ackno : ℕ) : Timer × ℕ :=
  let (t, ret) :=
    { t with consecutiveRetransmissions := 0 }.ackLoop ackno 0 t.outstandings
  (if t.outstandings = [] then { t with running := false } else t, ret)

end Timer

/-! ## The sender -/

structure TCPSender where
  isn : WrappingInt32
  segmentsOut : List SentSegment
  stream : ByteStream
  nextSeqno : ℕ
  bytesInFlight : ℕ
  windowSize : UInt16
  ackno : ℕ
  finSended : Bool
  timer : Timer
deriving DecidableEq

namespace TCPSender

/-- `random` is the number drawn when no initial sequence number is fixed. -/
def new (capacity : ℕ) (retxTimeout : UInt16)
    (fixedIsn : Option WrappingInt32) (random : UInt32) : TCPSender where
  isn := fixedIsn.getD ⟨random⟩
  segmentsOut := []
  stream := .new capacity
  nextSeqno := 0
  bytesInFlight := 0
  windowSize := 1
  ackno := 0
  finSended := false
  timer := .new retxTimeout

/-- The condition of the loop in `fill_window`. -/
def CanSend (s : TCPSender) (endSeqno : ℕ) : Prop :=
  s.finSended = false ∧ s.nextSeqno < endSeqno ∧
    (s.stream.bufferEmpty = false ∨ s.nextSeqno = 0 ∨ s.stream.eof = true)

instance (s : TCPSender) (endSeqno : ℕ) : Decidable (s.CanSend endSeqno) := by
  unfold CanSend
  infer_instance

/-- The body of the loop in `fill_window`: make one segment out of what the
window and the stream allow, send it and keep it as outstanding. -/
def sendSegment (s : TCPSender) (endSeqno : ℕ) : TCPSender :=
  let timer := s.timer.on
  let seg : SentSegment :=
    { header := { syn := s.nextSeqno = 0, seqno := wrap s.nextSeqno s.isn }
      absSeqno := s.nextSeqno }
  let readLen :=
    min (endSeqno - s.nextSeqno - seg.header.syn.toNat) s.stream.bufferSize
  let readLen := min readLen TCPConfig.maxPayloadSize
  let (stream, payload) := s.stream.read readLen
  let seg := { seg with payload := payload }
  let segLen := seg.lengthInSequenceSpace
  let (seg, segLen, finSended) :=
    if segLen < endSeqno - s.nextSeqno then
      ({ seg with header := { seg.header with fin := stream.eof } },
        segLen + stream.eof.toNat, stream.eof)
    else (seg, segLen, s.finSended)
  { s with
    stream := stream
    finSended := finSended
    bytesInFlight := s.bytesInFlight + segLen
    nextSeqno := s.nextSeqno + segLen
    segmentsOut := s.segmentsOut ++ [seg]
    timer := timer.pushOutstanding seg (s.nextSeqno + segLen) }

/-- The loop of `fill_window`, for at most the given number of turns. -/
def fillLoop (endSeqno : ℕ) : ℕ → TCPSender → TCPSender
  | 0, s => s
  | fuel + 1, s =>
      if s.CanSend endSeqno then fillLoop endSeqno fuel (s.sendSegment endSeqno)
      else s

/-- The first sequence number that may not be sent. -/
def endSeqno (s : TCPSender) : ℕ :=
  (if 0 < s.windowSize.toNat then s.windowSize.toNat else 1) + s.ackno

/-- Every turn of the loop uses up at least one sequence number, so that the
distance to the end of the window bounds their number. -/
def fillWindow (s : TCPSender) : TCPSender :=
  fillLoop s.endSeqno (s.endSeqno - s.nextSeqno) s

def ackReceived (s : TCPSender) (ackno : WrappingInt32)
    (windowSize : UInt16) : TCPSender :=
  let tmp := unwrap ackno s.isn s.nextSeqno
  if tmp ≤ s.nextSeqno then
    let (timer, acked) := s.timer.ackHandle tmp
    { s with
      ackno := tmp
      windowSize := windowSize
      timer := timer
      bytesInFlight := subSize s.bytesInFlight acked }
  else s

def tick (s : TCPSender) (msSinceLastTick : ℕ) : TCPSender :=
  let (timer, segmentsOut) :=
    s.timer.tickHandle msSinceLastTick s.windowSize s.segmentsOut
  { s with timer := timer, segmentsOut := segmentsOut }

def sendEmptySegment (s : TCPSender) : TCPSender :=
  let seg : SentSegment :=
    { header := { seqno := wrap s.nextSeqno s.isn }, absSeqno := s.nextSeqno }
  { s with segmentsOut := s.segmentsOut ++ [seg] }

def consecutiveRetransmissions (s : TCPSender) : ℕ :=
  s.timer.consecutiveRetransmissions

end TCPSender
end Sponge
