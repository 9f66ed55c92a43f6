import Sponge.TCPConnection.Endpoint
import Sponge.TCPSender.Retransmission

/-!
# The official states, and LISTEN

`TCPState` summarises a connection by the state of its sender, the state of its
receiver and two flags, and names the summaries that the specification of TCP
gives names to.  The summaries are texts in the source; here they are the
constructors of two types.

A connection that nobody opens stays in LISTEN, as long as no segment with the
RST flag arrives: `segment_received` obeys the flag in every state.
-/

namespace Sponge

open Support

inductive TCPReceiverStateSummary where
  | error
  | listen
  | synRecv
  | finRecv
deriving DecidableEq

inductive TCPSenderStateSummary where
  | error
  | closed
  | synSent
  | synAcked
  | finSent
  | finAcked
deriving DecidableEq

structure TCPState where
  sender : TCPSenderStateSummary
  receiver : TCPReceiverStateSummary
  active : Bool := true
  lingerAfterStreamsFinish : Bool := true
deriving DecidableEq

namespace TCPState

inductive State where
  | listen
  | synRcvd
  | synSent
  | established
  | closeWait
  | lastAck
  | finWait1
  | finWait2
  | closing
  | timeWait
  | closed
  | reset
deriving DecidableEq

/-- The summary that belongs to an official name. -/
def ofState : State → TCPState
  | .listen => { receiver := .listen, sender := .closed }
  | .synRcvd => { receiver := .synRecv, sender := .synSent }
  | .synSent => { receiver := .listen, sender := .synSent }
  | .established => { receiver := .synRecv, sender := .synAcked }
  | .closeWait =>
      { receiver := .finRecv, sender := .synAcked
        lingerAfterStreamsFinish := false }
  | .lastAck =>
      { receiver := .finRecv, sender := .finSent
        lingerAfterStreamsFinish := false }
  | .closing => { receiver := .finRecv, sender := .finSent }
  | .finWait1 => { receiver := .synRecv, sender := .finSent }
  | .finWait2 => { receiver := .synRecv, sender := .finAcked }
  | .timeWait => { receiver := .finRecv, sender := .finAcked }
  | .reset =>
      { receiver := .error, sender := .error
        lingerAfterStreamsFinish := false, active := false }
  | .closed =>
      { receiver := .finRecv, sender := .finAcked
        lingerAfterStreamsFinish := false, active := false }

end TCPState

def TCPReceiver.stateSummary (r : TCPReceiver) : TCPReceiverStateSummary :=
  if r.streamOut.error then .error
  else if r.ackno?.isSome = false then .listen
  else if r.streamOut.inputEnded then .finRecv
  else .synRecv

def TCPSender.stateSummary (s : TCPSender) : TCPSenderStateSummary :=
  if s.stream.error then .error
  else if s.nextSeqno = 0 then .closed
  else if s.nextSeqno = s.bytesInFlight then .synSent
  else if s.stream.eof = false then .synAcked
  else if s.nextSeqno < s.stream.bytesWritten + 2 then .synAcked
  else if s.bytesInFlight ≠ 0 then .finSent
  else .finAcked

def TCPConnection.state (c : TCPConnection) : TCPState where
  sender := c.sender.stateSummary
  receiver := c.receiver.stateSummary
  active := c.active
  lingerAfterStreamsFinish :=
    if c.active then c.lingerAfterStreamsFinish else false

/-! ## Connections that nobody has opened -/

namespace TCPReceiver

/-- Before the first SYN a segment without one changes nothing. -/
theorem segmentReceived_of_not_syn {r : TCPReceiver} {seg : TCPSegment}
    (harrived : r.synArrived = false) (hsyn : seg.header.syn = false) :
    r.segmentReceived seg = r := by
  have hnote : r.noteSyn seg = r := by simp [noteSyn, hsyn]
  have hnone : r.streamIndex? seg = none := by simp [streamIndex?, harrived]
  simp only [segmentReceived, hnote, hnone]

end TCPReceiver

namespace TCPSender

/-- Nothing was sent and nothing waits to be sent. -/
structure Unopened (s : TCPSender) : Prop where
  nextSeqno : s.nextSeqno = 0
  noError : s.stream.error = false
  notEnded : s.stream.inputEnded = false
  queue : s.segmentsOut = []
  running : s.timer.running = false
  outstandings : s.timer.outstandings = []
  count : s.timer.consecutiveRetransmissions = 0

theorem unopened_new (capacity : ℕ) (retxTimeout : UInt16)
    (fixedIsn : Option WrappingInt32) (random : UInt32) :
    (new capacity retxTimeout fixedIsn random).Unopened :=
  ⟨rfl, rfl, rfl, rfl, rfl, rfl, rfl⟩

theorem Unopened.ackReceived {s : TCPSender} (h : s.Unopened)
    (ackno : WrappingInt32) (win : UInt16) :
    (s.ackReceived ackno win).Unopened := by
  obtain ⟨tmp, htmp⟩ : ∃ tmp, unwrap ackno s.isn s.nextSeqno = tmp :=
    ⟨_, rfl⟩
  by_cases hle : tmp ≤ s.nextSeqno
  · have huncovered : Timer.Uncovered s.timer.outstandings tmp := by
      simp [Timer.Uncovered, h.outstandings]
    have hrunning : s.timer.running = true ↔ s.timer.outstandings ≠ [] := by
      simp [h.running, h.outstandings]
    rw [ackReceived_of_le htmp hle,
      Timer.ackHandle_of_uncovered huncovered hrunning]
    exact ⟨h.nextSeqno, h.noError, h.notEnded, h.queue, h.running,
      h.outstandings, rfl⟩
  · rw [ackReceived_of_lt htmp (Nat.not_le.mp hle)]
    exact h

theorem Unopened.tick {s : TCPSender} (h : s.Unopened) (ms : ℕ) :
    s.tick ms = s := by
  have htimer := Timer.tickHandle_of_not_running ms s.windowSize
    s.segmentsOut h.running
  have hout : (s.timer.tickHandle ms s.windowSize s.segmentsOut).2 =
      s.segmentsOut := by
    simp [Timer.tickHandle_snd, Timer.Expires, h.running]
  simp only [TCPSender.tick, htimer, hout]

end TCPSender

namespace TCPConnection

/-- The connection is as it was made, but for what acknowledgments and ticks
leave behind. -/
structure Unopened (c : TCPConnection) : Prop where
  active : c.active = true
  linger : c.lingerAfterStreamsFinish = true
  noSyn : c.receiver.synArrived = false
  noError : c.receiver.streamOut.error = false
  notEnded : c.receiver.streamOut.inputEnded = false
  sender : c.sender.Unopened
  queue : c.segmentsOut = []

theorem Unopened.state {c : TCPConnection} (h : c.Unopened) :
    c.state = .ofState .listen := by
  simp [TCPConnection.state, TCPState.ofState, TCPReceiver.stateSummary,
    TCPSender.stateSummary, TCPReceiver.ackno?, h.active, h.linger, h.noSyn,
    h.noError, h.sender.noError, h.sender.nextSeqno]

/-- Neither stream has ended, so that the connection is not closed. -/
theorem Unopened.noteFirstEnd {c : TCPConnection} (h : c.Unopened) :
    c.noteFirstEnd = c := by
  simp [TCPConnection.noteFirstEnd, inboundStream, ByteStream.eof, h.notEnded]

theorem Unopened.tryCleanClosed {c : TCPConnection} (h : c.Unopened) :
    c.tryCleanClosed = c := by
  simp [TCPConnection.tryCleanClosed, inboundStream, ByteStream.eof,
    h.notEnded]

theorem Unopened.reply {c : TCPConnection} (h : c.Unopened)
    (seg : TCPSegment) : c.reply seg = c := by
  simp [TCPConnection.reply, TCPReceiver.ackno?, h.noSyn]

theorem Unopened.replyKeepAlive {c : TCPConnection} (h : c.Unopened)
    (seg : TCPSegment) : c.replyKeepAlive seg = c := by
  simp [TCPConnection.replyKeepAlive, TCPReceiver.ackno?, h.noSyn]

theorem Unopened.ackReceived {c : TCPConnection} (h : c.Unopened)
    (ackno : WrappingInt32) (win : UInt16) :
    (c.ackReceived ackno win).Unopened := by
  have hsender := h.sender.ackReceived ackno win
  rw [TCPConnection.ackReceived, fillOpened]
  generalize c.sender.ackReceived ackno win = s at hsender
  rw [if_neg (not_not.mpr hsender.nextSeqno)]
  exact ⟨h.active, h.linger, h.noSyn, h.noError, h.notEnded, hsender,
    h.queue⟩

theorem Unopened.afterAck {c : TCPConnection} (h : c.Unopened)
    {seg : TCPSegment} (hsyn : seg.header.syn = false) :
    (c.afterAck seg).Unopened := by
  have hreceived : Unopened { c with lingerTime := 0 } :=
    ⟨h.active, h.linger, h.noSyn, h.noError, h.notEnded, h.sender, h.queue⟩
  simp only [TCPConnection.afterAck,
    TCPReceiver.segmentReceived_of_not_syn h.noSyn hsyn]
  split
  · exact hreceived.ackReceived _ _
  · exact hreceived

/-- A segment with neither SYN nor RST does not open the connection, whatever
else it carries. -/
theorem Unopened.segmentReceived {c : TCPConnection} (h : c.Unopened)
    {seg : TCPSegment} (hsyn : seg.header.syn = false)
    (hrst : seg.header.rst = false) : (c.segmentReceived seg).Unopened := by
  have hafter := h.afterAck hsyn
  rw [segmentReceived_eq c hrst, hafter.noteFirstEnd, hafter.tryCleanClosed,
    hafter.reply, hafter.replyKeepAlive]
  exact hafter

theorem Unopened.tick {c : TCPConnection} (h : c.Unopened) (ms : ℕ) :
    (c.tick ms).Unopened := by
  have hafter : (c.afterTick ms).Unopened := by
    refine ⟨h.active, h.linger, h.noSyn, h.noError, h.notEnded, ?_, ?_⟩
    · simp only [afterTick, updateQueue, h.sender.tick]
      exact ⟨h.sender.nextSeqno, h.sender.noError, h.sender.notEnded, rfl,
        h.sender.running, h.sender.outstandings, h.sender.count⟩
    · simp [afterTick, updateQueue, h.sender.tick, h.sender.queue, h.queue]
  have hfew : ¬TCPConfig.maxRetxAttempts <
      (c.afterTick ms).sender.consecutiveRetransmissions := by
    rw [TCPSender.consecutiveRetransmissions, hafter.sender.count]
    exact Nat.not_lt_zero _
  rw [tick_eq_ite, if_neg hfew, hafter.tryCleanClosed]
  exact hafter

end TCPConnection

namespace Endpoint

/-- The event neither opens the connection nor asks it to send: no `connect`,
`write` or `end_input_stream`, and no segment with the SYN flag. -/
def NotOpening : Event → Prop
  | .receive seg => seg.header.syn = false
  | .act .connect | .act (.write _) | .act .endInputStream => False
  | .act (.tick _) | .act (.read _) | .act (.popOutput _)
  | .act .transmit => True

/-- No segment with the RST flag is received. -/
def NoRst : Event → Prop
  | .receive seg => seg.header.rst = false
  | .act _ => True

/-- The connection is active and in LISTEN, neither stream is in error, and
there is nothing on `segments_out`. -/
def Listening (e : Endpoint) : Prop :=
  e.conn.active = true ∧ e.conn.inboundStream.error = false ∧
    e.conn.sender.stream.error = false ∧
    e.conn.state = .ofState .listen ∧ e.conn.segmentsOut = []

instance (e : Endpoint) : Decidable e.Listening :=
  inferInstanceAs (Decidable (_ ∧ _))

theorem unopened_step {e : Endpoint} (h : e.conn.Unopened) {event : Event}
    (hopening : NotOpening event) (hrst : NoRst event) :
    (e.step event).conn.Unopened := by
  cases event with
  | receive seg => exact h.segmentReceived hopening hrst
  | act op =>
      cases op with
      | connect | write _ | endInputStream => exact hopening.elim
      | tick ms => exact h.tick ms
      | read len =>
          exact ⟨h.active, h.linger, h.noSyn, h.noError, h.notEnded, h.sender,
            h.queue⟩
      | popOutput len =>
          exact ⟨h.active, h.linger, h.noSyn, h.noError, h.notEnded, h.sender,
            h.queue⟩
      | transmit =>
          simp only [step, act, h.queue]
          exact h

/-- **LISTEN is stable.**  A connection that nobody opens, and that receives no
segment with the SYN flag, stays active and in LISTEN with neither stream in
error and nothing on `segments_out`, if and only if it receives no segment with
the RST flag. -/
theorem listening_iff_noRst (cfg : TCPConfig) (random : UInt32)
    {events : List Event} (hevents : ∀ event ∈ events, NotOpening event) :
    EveryState step (new cfg random) events Listening ↔
      ∀ event ∈ events, NoRst event := by
  have hguard : EveryStep step (new cfg random) events
      (fun _ event => NotOpening event) :=
    everyStep_iff_forall_mem.mpr hevents
  have hstart : (new cfg random).conn.Unopened :=
    ⟨rfl, rfl, rfl, rfl, rfl, TCPSender.unopened_new _ _ _ _, rfl⟩
  have hiff := EveryStep.everyState_iff (I := fun e : Endpoint =>
      e.conn.Unopened) (Q := Listening) (P := fun _ event => NoRst event)
    (fun _ _ h hopening hrst => unopened_step h hopening hrst)
    (fun _ h => ⟨h.active, h.noError, h.sender.noError, h.state, h.queue⟩)
    ?_ hstart hguard
  · rw [hiff]
    exact everyStep_iff_forall_mem
  · intro e event _ _ hrst hlistening
    cases event with
    | receive seg =>
        have hflag : seg.header.rst = true :=
          Bool.eq_true_of_not_eq_false hrst
        have hactive := hlistening.1
        simp only [step, receive, TCPConnection.segmentReceived, hflag,
          if_true] at hactive
        cases hactive
    | act op => exact hrst trivial

/-- An acknowledgment of the initial sequence number, a FIN with a byte, and
time. -/
theorem listening_ack_fin :
    let ack : TCPSegment := { header := { ack := true, win := 5 } }
    let fin : TCPSegment := { header := { fin := true }, payload := [7] }
    EveryState step (new { fixedIsn := some ⟨0⟩ } 0)
      [.receive ack, .receive fin, .act (.tick 10000)] Listening := by
  intro ack fin
  refine (listening_iff_noRst { fixedIsn := some ⟨0⟩ } 0 ?_).mpr ?_
  · simp [NotOpening, ack, fin]
  · simp [NoRst, ack, fin]

/-- One segment with the RST flag ends the connection. -/
theorem not_listening_rst :
    let rst : TCPSegment := { header := { rst := true } }
    (∀ event ∈ [Event.receive rst], NotOpening event) ∧
      ¬EveryState step (new {} 0) [.receive rst] Listening := by
  intro rst
  refine ⟨by simp [NotOpening, rst], ?_⟩
  decide +kernel

end Endpoint
end Sponge
