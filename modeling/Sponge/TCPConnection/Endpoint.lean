import Sponge.TCPConnection.Model
import Sponge.TCPReceiver.Session
import Sponge.TCPSender.Stable

/-!
# Endpoints

An endpoint is a connection together with the history that its owner sees: the
bytes that `write` accepted, the bytes taken from the inbound stream, and the
segments taken from `segments_out`, in the order in which they were put on the
wire.
-/

namespace Sponge

open Support

structure Endpoint where
  conn : TCPConnection
  accepted : List UInt8
  consumed : List UInt8
  wire : List SentSegment
deriving DecidableEq

namespace Endpoint

/-- What the owner of a connection may do; `transmit` takes one segment from
`segments_out`. -/
inductive Op where
  | connect
  | write (data : List UInt8)
  | endInputStream
  | tick (ms : ℕ)
  | read (len : ℕ)
  | popOutput (len : ℕ)
  | transmit
deriving DecidableEq

/-- An operation of the owner, or a segment from the network. -/
inductive Event where
  | act (op : Op)
  | receive (seg : TCPSegment)
deriving DecidableEq

def new (cfg : TCPConfig) (random : UInt32) : Endpoint where
  conn := .new cfg random
  accepted := []
  consumed := []
  wire := []

/-- The receiver and the bytes taken from its stream. -/
def inbound (e : Endpoint) : TCPReceiver.Session :=
  ⟨e.conn.receiver, e.consumed⟩

def withInbound (e : Endpoint) (s : TCPReceiver.Session) : Endpoint :=
  { e with
    conn := { e.conn with receiver := s.receiver }
    consumed := s.consumed }

def act (e : Endpoint) : Op → Endpoint
  | .connect => { e with conn := e.conn.connect }
  | .write data =>
      let (conn, ret) := e.conn.write data
      { e with conn := conn, accepted := e.accepted ++ data.take ret }
  | .endInputStream => { e with conn := e.conn.endInputStream }
  | .tick ms => { e with conn := e.conn.tick ms }
  | .read len => e.withInbound (e.inbound.step (.read len))
  | .popOutput len => e.withInbound (e.inbound.step (.popOutput len))
  | .transmit =>
      match e.conn.segmentsOut with
      | [] => e
      | seg :: rest =>
          { e with
            conn := { e.conn with segmentsOut := rest }
            wire := e.wire ++ [seg] }

def receive (e : Endpoint) (seg : TCPSegment) : Endpoint :=
  { e with conn := e.conn.segmentReceived seg }

def step (e : Endpoint) : Event → Endpoint
  | .act op => e.act op
  | .receive seg => e.receive seg

def run (cfg : TCPConfig) (random : UInt32) (events : List Event) : Endpoint :=
  events.foldl step (new cfg random)

/-- Every segment that was put on `segments_out` and not discarded by a
reset. -/
def emitted (e : Endpoint) : List SentSegment := e.wire ++ e.conn.segmentsOut

/-! ## The inbound side -/

/-- The receiver changes as in a session of its own, but for a reset, which
marks its stream. -/
theorem inbound_step (e : Endpoint) (event : Event) :
    (∃ event', (e.step event).inbound = e.inbound.step event') ∨
      (e.step event).inbound = e.inbound ∨
      (e.step event).inbound =
        { e.inbound with receiver := e.conn.setErrors.receiver } := by
  cases event with
  | receive seg =>
      cases hrst : seg.header.rst with
      | true =>
          right; right
          simp only [inbound, step, receive, TCPConnection.segmentReceived,
            hrst, if_true]
          rfl
      | false =>
          refine Or.inl ⟨.segment seg, ?_⟩
          simp only [inbound, step, receive, TCPReceiver.Session.step,
            TCPConnection.receiver_segmentReceived _ hrst]
  | act op =>
      cases op with
      | connect | write _ | endInputStream => exact Or.inr (Or.inl rfl)
      | tick ms =>
          right
          simp only [inbound, step, act, TCPConnection.tick_eq_ite]
          split
          · exact Or.inr rfl
          · left
            rw [TCPConnection.receiver_tryCleanClosed]
            rfl
      | read len => exact Or.inl ⟨.read len, rfl⟩
      | popOutput len => exact Or.inl ⟨.popOutput len, rfl⟩
      | transmit =>
          right; left
          simp only [step, act]
          split <;> rfl

theorem inbound_valid_step {capacity : ℕ} {e : Endpoint}
    (h : e.inbound.Valid capacity) (event : Event) :
    (e.step event).inbound.Valid capacity := by
  rcases e.inbound_step event with ⟨event', hstep⟩ | hsame | hmarked
  · rw [hstep]
    exact h.step event'
  · rw [hsame]
    exact h
  · rw [hmarked]
    obtain ⟨⟨⟨hseparated, hunassembled, hroom⟩, hcapacity, hnidx⟩, hcap,
      hackno⟩ := h
    exact ⟨⟨⟨hseparated, hunassembled, hroom⟩, hcapacity, hnidx⟩, hcap,
      hackno⟩

/-- An inbound stream that has ended stays so. -/
theorem inputEnded_step {capacity : ℕ} {e : Endpoint}
    (h : e.inbound.Valid capacity)
    (hended : e.conn.inboundStream.inputEnded = true) (event : Event) :
    (e.step event).conn.inboundStream.inputEnded = true := by
  change (e.step event).inbound.receiver.streamOut.inputEnded = true
  rcases e.inbound_step event with ⟨event', hstep⟩ | hsame | hmarked
  · rw [hstep]
    exact h.inputEnded_step event' hended
  · rw [hsame]
    exact hended
  · rw [hmarked]
    exact hended

end Endpoint

/-! ## Properties of the sender -/

section Stable

variable {I : TCPSender → Prop} (hI : TCPSender.Stable I)

include hI

namespace TCPConnection

theorem stable_fillWindow {c : TCPConnection} (h : I c.sender) :
    I c.fillWindow.sender :=
  hI.queue _ _ (hI.fillWindow _ h)

theorem stable_sendEmptySegment {c : TCPConnection} (h : I c.sender) :
    I c.sendEmptySegment.sender :=
  hI.queue _ _ (hI.queue _ _ h)

theorem stable_sendRst {c : TCPConnection} (h : I c.sender) :
    I c.sendRst.sender :=
  hI.setError _ (hI.queue _ _ h)

theorem stable_fillOpened {c : TCPConnection} (h : I c.sender) :
    I c.fillOpened.sender := by
  unfold fillOpened
  split
  · exact stable_fillWindow hI h
  · exact h

theorem stable_ackReceived {c : TCPConnection} (h : I c.sender)
    (ackno : WrappingInt32) (win : UInt16) :
    I (c.ackReceived ackno win).sender := by
  have hack := hI.ackReceived _ ackno win h
  rw [TCPConnection.ackReceived]
  exact stable_fillOpened hI hack

theorem stable_reply {c : TCPConnection} (h : I c.sender)
    (seg : TCPSegment) : I (c.reply seg).sender := by
  unfold reply
  split
  · split
    · exact stable_fillWindow hI h
    · exact stable_sendEmptySegment hI h
  · exact h

theorem stable_replyKeepAlive {c : TCPConnection} (h : I c.sender)
    (seg : TCPSegment) : I (c.replyKeepAlive seg).sender := by
  unfold replyKeepAlive
  split
  · exact stable_sendEmptySegment hI h
  · exact h

theorem stable_afterAck {c : TCPConnection} (h : I c.sender)
    (seg : TCPSegment) : I (c.afterAck seg).sender := by
  simp only [afterAck]
  split
  · apply stable_ackReceived hI
    exact h
  · exact h

theorem stable_segmentReceived {c : TCPConnection} (h : I c.sender)
    (seg : TCPSegment) : I (c.segmentReceived seg).sender := by
  cases hrst : seg.header.rst with
  | true =>
      simp only [segmentReceived, hrst, if_true]
      exact hI.setError _ h
  | false =>
      rw [segmentReceived_eq c hrst]
      apply stable_replyKeepAlive hI
      apply stable_reply hI
      rw [sender_tryCleanClosed, sender_noteFirstEnd]
      exact stable_afterAck hI h seg

theorem stable_tick {c : TCPConnection} (h : I c.sender) (ms : ℕ) :
    I (c.tick ms).sender := by
  have hticked := hI.queue _ [] (hI.tick _ ms h)
  rw [tick_eq_ite]
  split
  · exact stable_sendRst hI hticked
  · rw [sender_tryCleanClosed]
    exact hticked

end TCPConnection

namespace Endpoint

/-- A stable property holds of the sender after every event, provided that it
survives the write when the event is one. -/
theorem stable_step {e : Endpoint} (h : I e.conn.sender) {event : Event}
    (hwrite : ∀ data, event = .act (.write data) →
      I { e.conn.sender with
        stream := (e.conn.sender.stream.write data).1 }) :
    I (e.step event).conn.sender := by
  cases event with
  | receive seg => exact TCPConnection.stable_segmentReceived hI h seg
  | act op =>
      cases op with
      | connect => exact TCPConnection.stable_fillWindow hI h
      | write data => exact TCPConnection.stable_fillWindow hI (hwrite data rfl)
      | endInputStream =>
          exact TCPConnection.stable_fillWindow hI (hI.endInput _ h)
      | tick ms => exact TCPConnection.stable_tick hI h ms
      | read len => exact h
      | popOutput len => exact h
      | transmit =>
          simp only [step, act]
          split <;> exact h

end Endpoint

end Stable
end Sponge
