import Sponge.TCPReceiver.Model
import Sponge.TCPSender.Model

/-!
# The TCP connection

`TCPConnection` joins a receiver and a sender, stamps outgoing segments with the
receiver's acknowledgment and window, and decides when the connection is over.

The time since the last segment is a `size_t` and wraps modulo `2 ^ 64`.
`fill_window` and `send_empty_segment` are always followed by `update_queue`,
and `fillWindow` and `sendEmptySegment` stand for the two calls together.
-/

namespace Sponge

open Support

structure TCPConnection where
  cfg : TCPConfig
  receiver : TCPReceiver
  sender : TCPSender
  segmentsOut : List SentSegment
  lingerAfterStreamsFinish : Bool
  lingerTime : ℕ
  active : Bool
deriving DecidableEq

namespace TCPConnection

/-- `random` is the number drawn when no initial sequence number is fixed. -/
def new (cfg : TCPConfig) (random : UInt32) : TCPConnection where
  cfg := cfg
  receiver := .new cfg.recvCapacity
  sender := .new cfg.sendCapacity cfg.rtTimeout cfg.fixedIsn random
  segmentsOut := []
  lingerAfterStreamsFinish := true
  lingerTime := 0
  active := true

def inboundStream (c : TCPConnection) : ByteStream := c.receiver.streamOut

def bytesInFlight (c : TCPConnection) : ℕ := c.sender.bytesInFlight

def unassembledBytes (c : TCPConnection) : ℕ := c.receiver.unassembledBytes

def timeSinceLastSegmentReceived (c : TCPConnection) : ℕ := c.lingerTime

def remainingOutboundCapacity (c : TCPConnection) : ℕ :=
  c.sender.stream.remainingCapacity

/-- `set_error` on both streams. -/
def setErrors (c : TCPConnection) : TCPConnection :=
  { c with
    receiver :=
      { c.receiver with
        reassembler :=
          { c.receiver.reassembler with
            output := c.receiver.reassembler.output.setError } }
    sender := { c.sender with stream := c.sender.stream.setError } }

/-- The empty segment that is made for the RST stays in the sender's queue; a
copy with the RST flag is all that is left on the outgoing one. -/
def sendRst (c : TCPConnection) : TCPConnection :=
  let sender := c.sender.sendEmptySegment
  let rst := sender.segmentsOut.getLast?.map fun seg =>
    { seg with header := { seg.header with rst := true } }
  { { c with sender := sender, segmentsOut := rst.toList }.setErrors with
    active := false }

def tryCleanClosed (c : TCPConnection) : TCPConnection :=
  if c.inboundStream.eof ∧ c.sender.stream.eof ∧ c.sender.bytesInFlight = 0 then
    if c.lingerAfterStreamsFinish = false ∨
        c.cfg.rtTimeout.toNat * 10 ≤ c.lingerTime then
      { c with active := false }
    else c
  else c

/-- A segment as `update_queue` puts it on the outgoing queue.  The window is
truncated to 16 bits. -/
def stamp (c : TCPConnection) (seg : SentSegment) : SentSegment :=
  match c.receiver.ackno? with
  | none => seg
  | some ackno =>
      { seg with
        header :=
          { seg.header with
            ack := true
            ackno := ackno
            win := UInt16.ofNat c.receiver.windowSize }
        absAckno := c.receiver.ackno }

def updateQueue (c : TCPConnection) : TCPConnection :=
  { c with
    segmentsOut := c.segmentsOut ++ c.sender.segmentsOut.map c.stamp
    sender := { c.sender with segmentsOut := [] } }

def fillWindow (c : TCPConnection) : TCPConnection :=
  { c with sender := c.sender.fillWindow }.updateQueue

def sendEmptySegment (c : TCPConnection) : TCPConnection :=
  { c with sender := c.sender.sendEmptySegment }.updateQueue

/-- The window is filled once the SYN was sent. -/
def fillOpened (c : TCPConnection) : TCPConnection :=
  if c.sender.nextSeqno ≠ 0 then c.fillWindow else c

/-- The part of `segment_received` for a segment with the ACK flag. -/
def ackReceived (c : TCPConnection) (ackno : WrappingInt32)
    (win : UInt16) : TCPConnection :=
  { c with sender := c.sender.ackReceived ackno win }.fillOpened

/-- The inbound stream has ended before the outbound one: no lingering. -/
def noteFirstEnd (c : TCPConnection) : TCPConnection :=
  if c.inboundStream.eof ∧ c.sender.stream.eof = false then
    { c with lingerAfterStreamsFinish := false }
  else c

/-- The answer to a segment that occupies sequence numbers: the SYN of a
listening connection is answered by a SYN, everything else by an ACK. -/
def reply (c : TCPConnection) (seg : TCPSegment) : TCPConnection :=
  if seg.lengthInSequenceSpace ≠ 0 ∧ c.receiver.ackno?.isSome then
    if c.sender.nextSeqno = 0 ∧ seg.header.syn then c.fillWindow
    else c.sendEmptySegment
  else c

/-- The answer to a keep-alive segment, which is empty and carries the sequence
number before the acknowledged one. -/
def replyKeepAlive (c : TCPConnection) (seg : TCPSegment) : TCPConnection :=
  if seg.lengthInSequenceSpace = 0 ∧
      c.receiver.ackno?.map (fun ackno => ackno.sub 1) =
        some seg.header.seqno then
    c.sendEmptySegment
  else c

def segmentReceived (c : TCPConnection) (seg : TCPSegment) : TCPConnection :=
  let c := { c with lingerTime := 0 }
  if seg.header.rst then
    { c.setErrors with active := false }
  else
    let c := { c with receiver := c.receiver.segmentReceived seg }
    let c :=
      if seg.header.ack then c.ackReceived seg.header.ackno seg.header.win
      else c
    ((c.noteFirstEnd.tryCleanClosed).reply seg).replyKeepAlive seg

def write (c : TCPConnection) (data : List UInt8) : TCPConnection × ℕ :=
  let (stream, ret) := c.sender.stream.write data
  ({ c with sender := { c.sender with stream := stream } }.fillWindow, ret)

def tick (c : TCPConnection) (msSinceLastTick : ℕ) : TCPConnection :=
  let c := { c with sender := c.sender.tick msSinceLastTick }.updateQueue
  let c := { c with lingerTime := addSize c.lingerTime msSinceLastTick }
  if TCPConfig.maxRetxAttempts < c.sender.consecutiveRetransmissions then
    c.sendRst
  else
    c.tryCleanClosed

def endInputStream (c : TCPConnection) : TCPConnection :=
  { c with
    sender := { c.sender with stream := c.sender.stream.endInput } }.fillWindow

def connect (c : TCPConnection) : TCPConnection := c.fillWindow

/-- The two checks for the end of the connection change flags only. -/
theorem noteFirstEnd_eq (c : TCPConnection) :
    c.noteFirstEnd =
      { c with
        lingerAfterStreamsFinish := c.lingerAfterStreamsFinish &&
          !(c.inboundStream.eof && !c.sender.stream.eof) } := by
  unfold noteFirstEnd
  cases c.inboundStream.eof <;> cases c.sender.stream.eof <;> simp

theorem tryCleanClosed_eq (c : TCPConnection) :
    c.tryCleanClosed = { c with active := c.tryCleanClosed.active } := by
  unfold tryCleanClosed
  split
  · split <;> rfl
  · rfl

/-! ## What the parts of an operation leave alone -/

@[simp] theorem receiver_noteFirstEnd (c : TCPConnection) :
    c.noteFirstEnd.receiver = c.receiver := by
  rw [noteFirstEnd_eq]

@[simp] theorem receiver_tryCleanClosed (c : TCPConnection) :
    c.tryCleanClosed.receiver = c.receiver := by
  rw [tryCleanClosed_eq]

@[simp] theorem receiver_reply (c : TCPConnection) (seg : TCPSegment) :
    (c.reply seg).receiver = c.receiver := by
  unfold reply
  split
  · split <;> rfl
  · rfl

@[simp] theorem receiver_replyKeepAlive (c : TCPConnection)
    (seg : TCPSegment) : (c.replyKeepAlive seg).receiver = c.receiver := by
  unfold replyKeepAlive
  split <;> rfl

/-- The connection after the parts of `segment_received` that change the
receiver and handle the acknowledgment. -/
def afterAck (c : TCPConnection) (seg : TCPSegment) : TCPConnection :=
  let c :=
    { c with lingerTime := 0, receiver := c.receiver.segmentReceived seg }
  if seg.header.ack then c.ackReceived seg.header.ackno seg.header.win else c

/-- There was no acknowledgment, or it was handled and the window filled if a
SYN had been sent. -/
theorem afterAck_cases (c : TCPConnection) (seg : TCPSegment) :
    let received :=
      { c with lingerTime := 0, receiver := c.receiver.segmentReceived seg }
    let acked :=
      { received with
        sender := c.sender.ackReceived seg.header.ackno seg.header.win }
    c.afterAck seg = received ∨ c.afterAck seg = acked ∨
      c.afterAck seg = acked.fillWindow := by
  intro received acked
  simp only [afterAck]
  split
  · right
    rw [ackReceived, fillOpened]
    split
    · exact Or.inr rfl
    · exact Or.inl rfl
  · exact Or.inl rfl

theorem receiver_afterAck (c : TCPConnection) (seg : TCPSegment) :
    (c.afterAck seg).receiver = c.receiver.segmentReceived seg := by
  rcases c.afterAck_cases seg with heq | heq | heq
  · rw [heq]
  · rw [heq]
  · rw [heq, fillWindow, updateQueue]

theorem segmentReceived_eq (c : TCPConnection) {seg : TCPSegment}
    (hrst : seg.header.rst = false) :
    c.segmentReceived seg =
      ((c.afterAck seg).noteFirstEnd.tryCleanClosed.reply seg).replyKeepAlive
        seg := by
  simp only [segmentReceived, hrst, Bool.false_eq_true, if_false, afterAck]

/-- A segment without the RST flag is passed to the receiver. -/
theorem receiver_segmentReceived (c : TCPConnection) {seg : TCPSegment}
    (hrst : seg.header.rst = false) :
    (c.segmentReceived seg).receiver = c.receiver.segmentReceived seg := by
  rw [segmentReceived_eq c hrst, receiver_replyKeepAlive, receiver_reply,
    receiver_tryCleanClosed, receiver_noteFirstEnd, receiver_afterAck]

/-- The connection after the part of `tick` before the decision whether to go
on. -/
def afterTick (c : TCPConnection) (ms : ℕ) : TCPConnection :=
  { { c with sender := c.sender.tick ms }.updateQueue with
    lingerTime := addSize c.lingerTime ms }

theorem tick_eq_ite (c : TCPConnection) (ms : ℕ) :
    c.tick ms =
      if TCPConfig.maxRetxAttempts <
          (c.afterTick ms).sender.consecutiveRetransmissions then
        (c.afterTick ms).sendRst
      else (c.afterTick ms).tryCleanClosed :=
  rfl

/-- A reset leaves one segment on the queue, with the RST flag. -/
theorem segmentsOut_sendRst (c : TCPConnection) :
    ∃ seg, c.sendRst.segmentsOut = [seg] ∧ seg.header.rst = true := by
  simp [sendRst, setErrors, TCPSender.sendEmptySegment]

/-- Everything of a connection but its receiver, its sender and its queue. -/
def flags (c : TCPConnection) : TCPConfig × Bool × ℕ × Bool :=
  (c.cfg, c.lingerAfterStreamsFinish, c.lingerTime, c.active)

theorem flags_fillOpened (c : TCPConnection) :
    c.fillOpened.flags = c.flags := by
  unfold fillOpened
  split <;> rfl

theorem flags_ackReceived (c : TCPConnection) (ackno : WrappingInt32)
    (win : UInt16) : (c.ackReceived ackno win).flags = c.flags := by
  rw [ackReceived, flags_fillOpened, flags, flags]

theorem flags_reply (c : TCPConnection) (seg : TCPSegment) :
    (c.reply seg).flags = c.flags := by
  unfold reply
  split
  · split <;> rfl
  · rfl

theorem flags_replyKeepAlive (c : TCPConnection) (seg : TCPSegment) :
    (c.replyKeepAlive seg).flags = c.flags := by
  unfold replyKeepAlive
  split <;> rfl

/-- A connection is closed when both streams have ended, everything sent was
acknowledged, and there is no reason to linger or it has lingered long
enough. -/
theorem active_tryCleanClosed (c : TCPConnection) :
    c.tryCleanClosed.active = false ↔ c.active = false ∨
      (c.inboundStream.eof = true ∧ c.sender.stream.eof = true ∧
        c.sender.bytesInFlight = 0 ∧
        (c.lingerAfterStreamsFinish = false ∨
          c.cfg.rtTimeout.toNat * 10 ≤ c.lingerTime)) := by
  unfold tryCleanClosed
  split_ifs with hends hlinger
  · exact ⟨fun _ => Or.inr ⟨hends.1, hends.2.1, hends.2.2, hlinger⟩,
      fun _ => rfl⟩
  · refine ⟨Or.inl, ?_⟩
    rintro (hinactive | ⟨-, -, -, hyes⟩)
    · exact hinactive
    · exact absurd hyes hlinger
  · refine ⟨Or.inl, ?_⟩
    rintro (hinactive | ⟨hin, hout, hidle, -⟩)
    · exact hinactive
    · exact absurd ⟨hin, hout, hidle⟩ hends

@[simp] theorem sender_noteFirstEnd (c : TCPConnection) :
    c.noteFirstEnd.sender = c.sender := by
  rw [noteFirstEnd_eq]

@[simp] theorem sender_tryCleanClosed (c : TCPConnection) :
    c.tryCleanClosed.sender = c.sender := by
  rw [tryCleanClosed_eq]

end TCPConnection
end Sponge
