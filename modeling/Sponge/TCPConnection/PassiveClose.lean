import Sponge.TCPConnection.Reset
import Sponge.TCPConnection.Shutdown

/-!
# Passive close

A connection whose peer ends its stream first need not linger.
`segment_received` finds this out by asking whether the inbound stream is at its
end, that is, ended and read to the end, while the outbound one is not; and
`try_clean_closed` asks the inbound stream the same question.  A run is watched
by a flag that tells whether the peer's FIN was assembled while the outbound
stream was open.
-/

namespace Sponge

open Support

namespace TCPSender

/-- The first call of `fill_window` puts something in flight. -/
theorem Valid.inFlight_fillWindow {s : TCPSender} (h : s.Valid)
    (hsyn : s.FinAfterSyn) (hzero : s.nextSeqno = 0) :
    0 < s.fillWindow.bytesInFlight := by
  obtain ⟨segs, hfills, hstop⟩ := s.fillWindow_spec
  have hcan := canSend_of_nextSeqno_eq_zero hsyn hzero
  generalize s.fillWindow = s' at hfills hstop
  cases hfills with
  | nil => exact absurd hcan hstop
  | @cons _ s₁ _ seg _ _ hemits hrest =>
      obtain ⟨hvalid, hstart⟩ := (h.emits hemits).fills hrest
      have hstart₁ := h.queueStart_emits hemits
      have hpos := hemits.pos
      have hnext := hemits.nextSeqno
      have hgrows : s₁.nextSeqno ≤ s'.nextSeqno := by
        refine hrest.invariant (I := fun s => s₁.nextSeqno ≤ s.nextSeqno)
          ?_ le_rfl
        intro s₂ seg s₃ _ hle hemits
        rw [hemits.nextSeqno]
        omega
      unfold queueStart at hstart hstart₁
      omega

end TCPSender

namespace TCPConnection

/-- Both streams have ended, and everything sent was acknowledged, the FIN
included. -/
def Done (c : TCPConnection) : Prop :=
  c.inboundStream.inputEnded = true ∧ c.sender.stream.eof = true ∧
    c.sender.finSended = true ∧ c.sender.bytesInFlight = 0

instance (c : TCPConnection) : Decidable c.Done :=
  inferInstanceAs (Decidable (_ ∧ _))

theorem reply_cases (c : TCPConnection) (seg : TCPSegment) :
    (c.sender.nextSeqno = 0 ∧ c.reply seg = c.fillWindow) ∨
      c.reply seg = c.sendEmptySegment ∨ c.reply seg = c := by
  unfold reply
  split
  · split
    · rename_i hfirst
      exact Or.inl ⟨hfirst.1, rfl⟩
    · exact Or.inr (Or.inl rfl)
  · exact Or.inr (Or.inr rfl)

theorem replyKeepAlive_cases (c : TCPConnection) (seg : TCPSegment) :
    c.replyKeepAlive seg = c.sendEmptySegment ∨ c.replyKeepAlive seg = c := by
  unfold replyKeepAlive
  split
  · exact Or.inl rfl
  · exact Or.inr rfl

theorem Done.of_sendEmptySegment {c : TCPConnection}
    (h : c.sendEmptySegment.Done) : c.Done :=
  h

/-- Replies do not make a connection done: the SYN in reply to a SYN is in
flight. -/
theorem Done.of_replies {c : TCPConnection} (hvalid : c.sender.Valid)
    (hsyn : c.sender.FinAfterSyn) {seg : TCPSegment}
    (h : ((c.reply seg).replyKeepAlive seg).Done) : c.Done := by
  have hreply : (c.reply seg).Done := by
    rcases (c.reply seg).replyKeepAlive_cases seg with heq | heq
    · rw [heq] at h
      exact h.of_sendEmptySegment
    · rwa [heq] at h
  rcases c.reply_cases seg with ⟨hzero, heq⟩ | heq | heq
  · rw [heq] at hreply
    have hidle : c.sender.fillWindow.bytesInFlight = 0 := hreply.2.2.2
    have hflight := hvalid.inFlight_fillWindow hsyn hzero
    omega
  · rw [heq] at hreply
    exact hreply.of_sendEmptySegment
  · rwa [heq] at hreply

/-- An ended stream is at its end when its buffer is empty. -/
theorem eof_eq_bufferEmpty {s : ByteStream} (h : s.inputEnded = true) :
    s.eof = s.bufferEmpty := by
  simp [ByteStream.eof, ByteStream.bufferEmpty, h]

/-- A connection that is done and need not linger is closed, unless there are
bytes to be read. -/
theorem Done.active_tryCleanClosed {c : TCPConnection} (h : c.Done)
    (hlinger : c.lingerAfterStreamsFinish = false) :
    c.tryCleanClosed.active = false ↔
      c.active = false ∨ c.inboundStream.bufferEmpty = true := by
  obtain ⟨hin, hout, -, hidle⟩ := h
  rw [TCPConnection.active_tryCleanClosed, eof_eq_bufferEmpty hin]
  simp [hout, hidle, hlinger]

/-- The same for a connection that is done after a segment. -/
theorem Done.active_segmentReceived {c : TCPConnection}
    (hvalid : c.sender.Valid) (hsyn : c.sender.FinAfterSyn)
    {seg : TCPSegment} (hrst : seg.header.rst = false)
    (h : (c.segmentReceived seg).Done)
    (hlinger : (c.segmentReceived seg).lingerAfterStreamsFinish = false) :
    (c.segmentReceived seg).active = false ↔
      c.active = false ∨
        (c.receiver.segmentReceived seg).streamOut.bufferEmpty = true := by
  have hafter := c.flags_afterAck seg
  have hflags := c.flags_segmentReceived hrst
  simp only [flags, Prod.mk.injEq] at hafter hflags
  obtain ⟨-, hkept, -, hstill⟩ := hafter
  obtain ⟨-, hnoted, -, hactive⟩ := hflags
  have hdone : (c.afterAck seg).noteFirstEnd.Done := by
    rw [segmentReceived_eq c hrst] at h
    have hbefore : (c.beforeReply seg).Done := by
      refine Done.of_replies ?_ (finAfterSyn_beforeReply hsyn seg) h
      rw [beforeReply, sender_tryCleanClosed, sender_noteFirstEnd]
      exact stable_afterAck TCPSender.stable_valid hvalid seg
    rw [beforeReply, tryCleanClosed_eq] at hbefore
    exact hbefore
  have hoff : (c.afterAck seg).noteFirstEnd.lingerAfterStreamsFinish =
      false := by
    rw [noteFirstEnd_eq]
    dsimp only
    rw [hkept, ← hnoted, hlinger]
  have hwas : (c.afterAck seg).noteFirstEnd.active = c.active := by
    rw [noteFirstEnd_eq]
    exact hstill
  rw [hactive, hdone.active_tryCleanClosed hoff, hwas, inboundStream,
    receiver_noteFirstEnd, receiver_afterAck]

/-- The same for a connection that is done after a tick. -/
theorem Done.active_tick {c : TCPConnection} {ms : ℕ}
    (hfew : ¬TCPConfig.maxRetxAttempts <
      (c.sender.tick ms).consecutiveRetransmissions)
    (h : (c.tick ms).Done)
    (hlinger : (c.tick ms).lingerAfterStreamsFinish = false) :
    (c.tick ms).active = false ↔
      c.active = false ∨ c.inboundStream.bufferEmpty = true := by
  have htick : c.tick ms = (c.afterTick ms).tryCleanClosed := by
    rw [tick_eq_ite]
    exact if_neg hfew
  rw [htick] at h hlinger ⊢
  have hdone : (c.afterTick ms).Done := by
    rw [tryCleanClosed_eq] at h
    exact h
  have hoff : (c.afterTick ms).lingerAfterStreamsFinish = false := by
    rw [tryCleanClosed_eq] at hlinger
    exact hlinger
  exact hdone.active_tryCleanClosed hoff

/-- An acknowledgment does not end the outbound stream. -/
theorem inputEnded_afterAck (c : TCPConnection) (seg : TCPSegment) :
    (c.afterAck seg).sender.stream.inputEnded =
      c.sender.stream.inputEnded := by
  obtain ⟨-, hstream, -⟩ :=
    c.sender.ackReceived_unchanged seg.header.ackno seg.header.win
  have hcases := c.afterAck_cases seg
  obtain ⟨s, hs⟩ : ∃ s,
      c.sender.ackReceived seg.header.ackno seg.header.win = s := ⟨_, rfl⟩
  simp only [hs] at hstream hcases
  rcases hcases with heq | heq | heq
  · rw [heq]
  · rw [heq, hstream]
  · obtain ⟨segs, hfills, -⟩ := s.fillWindow_spec
    obtain ⟨-, -, hended⟩ := hfills.unchanged
    rw [hstream] at hended
    rw [heq]
    exact hended

end TCPConnection

namespace Endpoint

/-! ## Watching for a passive close -/

/-- The segment ends the inbound stream while the outbound one is open. -/
def EndsFirst (e : Endpoint) (seg : TCPSegment) : Prop :=
  e.conn.inboundStream.inputEnded = false ∧
    (e.receive seg).conn.inboundStream.inputEnded = true ∧
    e.conn.sender.stream.inputEnded = false

instance (e : Endpoint) (seg : TCPSegment) : Decidable (e.EndsFirst seg) :=
  inferInstanceAs (Decidable (_ ∧ _))

/-- Whether the peer's FIN was assembled while the outbound stream was open. -/
def notePassive (e : Endpoint) (passive : Bool) : Event → Bool
  | .receive seg => passive || decide (e.EndsFirst seg)
  | .act _ => passive

/-- A passive closer does not linger. -/
def LingerOff (watched : Endpoint × Bool) : Prop :=
  watched.2 = true → watched.1.conn.lingerAfterStreamsFinish = false

instance : DecidablePred LingerOff := fun watched =>
  inferInstanceAs (Decidable (watched.2 = true → _ = false))

/-- The events that look for the end of the connection. -/
def ChecksEnd : Event → Prop
  | .receive _ | .act (.tick _) => True
  | .act .connect | .act (.write _) | .act .endInputStream
  | .act (.read _) | .act (.popOutput _) | .act .transmit => False

/-- A passive closer that is done after a segment or a tick is closed. -/
def Closes (watched : Endpoint × Bool) (event : Event) : Prop :=
  ChecksEnd event → notePassive watched.1 watched.2 event = true →
    (watched.1.step event).conn.Done →
    (watched.1.step event).conn.active = false

/-- Nothing is left to be read, of what was received before and of what the
segment brings. -/
def Drained (e : Endpoint) : Event → Prop
  | .receive seg =>
      (e.conn.receiver.segmentReceived seg).streamOut.bufferEmpty = true
  | .act _ => e.conn.inboundStream.bufferEmpty = true

/-- Nothing is left to be read at a segment that ends the inbound stream
first. -/
def FinDrained (watched : Endpoint × Bool) : Event → Prop
  | .receive seg =>
      watched.1.EndsFirst seg → watched.1.Drained (.receive seg)
  | .act _ => True

/-- Nothing is left to be read at a segment or a tick after which an active
passive closer is done, unless it is reset by it. -/
def CloseDrained (watched : Endpoint × Bool) (event : Event) : Prop :=
  ChecksEnd event → notePassive watched.1 watched.2 event = true →
    (watched.1.step event).conn.Done → watched.1.conn.active = true →
    ¬watched.1.Resets event → watched.1.Drained event

/-! ## The segment that ends the inbound stream -/

/-- A reset does not end the inbound stream. -/
theorem not_endsFirst_of_rst {e : Endpoint} {seg : TCPSegment}
    (hrst : seg.header.rst = true) : ¬e.EndsFirst seg := by
  rintro ⟨hopen, hended, -⟩
  have hsame : (e.receive seg).conn.inboundStream.inputEnded =
      e.conn.inboundStream.inputEnded := by
    simp only [receive, TCPConnection.segmentReceived, hrst, if_true]
    rfl
  rw [hsame, hopen] at hended
  cases hended

/-- When the segment ends the inbound stream first, lingering is turned off
exactly if everything was read. -/
theorem EndsFirst.linger_receive {e : Endpoint} {seg : TCPSegment}
    (h : e.EndsFirst seg)
    (hlinger : e.conn.lingerAfterStreamsFinish = true) :
    (e.receive seg).conn.lingerAfterStreamsFinish = false ↔
      (e.conn.receiver.segmentReceived seg).streamOut.bufferEmpty = true := by
  have hrst : seg.header.rst = false := by
    by_contra hflag
    exact not_endsFirst_of_rst (Bool.eq_true_of_not_eq_false hflag) h
  obtain ⟨-, hended, hopen⟩ := h
  have hout : (e.conn.afterAck seg).sender.stream.eof = false := by
    simp [ByteStream.eof, TCPConnection.inputEnded_afterAck, hopen]
  have hin : (e.receive seg).conn.inboundStream =
      (e.conn.receiver.segmentReceived seg).streamOut := by
    simp only [TCPConnection.inboundStream, receive,
      e.conn.receiver_segmentReceived hrst]
  rw [Endpoint.linger_receive e hrst, hlinger, hout,
    TCPConnection.eof_eq_bufferEmpty hended, hin]
  simp

/-! ## Runs -/

/-- What holds along every run: lingering is off only after the inbound stream
has ended. -/
structure Watched (capacity : ℕ) (e : Endpoint) : Prop where
  inbound : e.inbound.Valid capacity
  valid : e.conn.sender.Valid
  finAfterSyn : e.conn.sender.FinAfterSyn
  ended : e.conn.lingerAfterStreamsFinish = false →
    e.conn.inboundStream.inputEnded = true

theorem watched_new (cfg : TCPConfig) (random : UInt32) :
    (new cfg random).Watched cfg.recvCapacity where
  inbound := TCPReceiver.Session.valid_new cfg.recvCapacity
  valid := TCPSender.valid_new cfg.sendCapacity cfg.rtTimeout cfg.fixedIsn
    random
  finAfterSyn := nofun
  ended := nofun

theorem Watched.step {capacity : ℕ} {e : Endpoint} (h : e.Watched capacity)
    (event : Event) : (e.step event).Watched capacity where
  inbound := inbound_valid_step h.inbound event
  valid := valid_step h.valid event
  finAfterSyn := finAfterSyn_step h.finAfterSyn event
  ended := by
    intro hoff
    by_cases hbefore : e.conn.lingerAfterStreamsFinish = false
    · exact inputEnded_step h.inbound (h.ended hbefore) event
    · cases event with
      | act op =>
          rw [Endpoint.step, linger_act] at hoff
          exact absurd hoff hbefore
      | receive seg =>
          cases hrst : seg.header.rst with
          | true =>
              rw [Endpoint.step, linger_of_rst e hrst] at hoff
              exact absurd hoff hbefore
          | false =>
              rw [Endpoint.step, linger_receive e hrst] at hoff
              simp only [Bool.and_eq_false_iff, Bool.not_eq_false',
                Bool.and_eq_true] at hoff
              rcases hoff with hfalse | ⟨heof, -⟩
              · exact absurd hfalse hbefore
              · exact (ByteStream.eof_iff.mp heof).1

/-- Lingering is never turned on again. -/
theorem linger_off_step {e : Endpoint}
    (h : e.conn.lingerAfterStreamsFinish = false) (event : Event) :
    (e.step event).conn.lingerAfterStreamsFinish = false := by
  cases event with
  | act op => rw [step, linger_act, h]
  | receive seg =>
      cases hrst : seg.header.rst with
      | true => rw [step, linger_of_rst e hrst, h]
      | false => rw [step, linger_receive e hrst, h, Bool.false_and]

theorem Watched.linger_of_endsFirst {capacity : ℕ} {e : Endpoint}
    (h : e.Watched capacity) {seg : TCPSegment} (hfirst : e.EndsFirst seg) :
    e.conn.lingerAfterStreamsFinish = true := by
  by_contra hoff
  have hended := h.ended (Bool.eq_false_of_not_eq_true hoff)
  rw [hfirst.1] at hended
  cases hended

theorem lingerOff_step {capacity : ℕ} {watched : Endpoint × Bool}
    (h : watched.1.Watched capacity) (hoff : LingerOff watched)
    {event : Event} (hguard : FinDrained watched event) :
    LingerOff (observe step notePassive watched event) := by
  intro hpassive
  cases event with
  | act op => exact linger_off_step (hoff hpassive) (.act op)
  | receive seg =>
      rcases Bool.or_eq_true_iff.mp hpassive with hbefore | hfirst
      · exact linger_off_step (hoff hbefore) (.receive seg)
      · have hends := of_decide_eq_true hfirst
        exact (hends.linger_receive (h.linger_of_endsFirst hends)).mpr
          (hguard hends)

theorem not_lingerOff_step {capacity : ℕ} {watched : Endpoint × Bool}
    (h : watched.1.Watched capacity) {event : Event}
    (hguard : ¬FinDrained watched event) :
    ¬LingerOff (observe step notePassive watched event) := by
  cases event with
  | act op => exact absurd trivial hguard
  | receive seg =>
      simp only [FinDrained, not_forall] at hguard
      obtain ⟨hends, hunread⟩ := hguard
      intro hoff
      have hpassive : (observe step notePassive watched
          (.receive seg)).2 = true := by
        simp [observe, notePassive, hends]
      exact hunread ((hends.linger_receive
        (h.linger_of_endsFirst hends)).mp (hoff hpassive))

/-- An event that resets the connection deactivates it. -/
theorem active_of_resets {e : Endpoint} {event : Event}
    (h : e.Resets event) : (e.step event).conn.active = false := by
  cases event with
  | receive seg =>
      have hrst : seg.header.rst = true := h
      simp only [step, receive, TCPConnection.segmentReceived, hrst, if_true]
  | act op =>
      cases op with
      | tick ms =>
          have htick : e.conn.tick ms = (e.conn.afterTick ms).sendRst := by
            rw [TCPConnection.tick_eq_ite]
            exact if_pos h
          simp only [step, act, htick]
          rfl
      | connect | write _ | endInputStream | read _ | popOutput _
      | transmit => exact h.elim

/-- A passive closer that is done after a segment or a tick and was not reset is
closed exactly if it was closed before or everything was read. -/
theorem active_iff_of_done {capacity : ℕ} {e : Endpoint}
    (h : e.Watched capacity) {event : Event} (hcheck : ChecksEnd event)
    (hreset : ¬e.Resets event) (hdone : (e.step event).conn.Done)
    (hoff : (e.step event).conn.lingerAfterStreamsFinish = false) :
    (e.step event).conn.active = false ↔
      e.conn.active = false ∨ e.Drained event := by
  cases event with
  | receive seg =>
      exact TCPConnection.Done.active_segmentReceived h.valid h.finAfterSyn
        (Bool.eq_false_of_not_eq_true hreset) hdone hoff
  | act op =>
      cases op with
      | tick ms => exact TCPConnection.Done.active_tick hreset hdone hoff
      | connect | write _ | endInputStream | read _ | popOutput _
      | transmit => exact hcheck.elim

theorem closes_iff_closeDrained {capacity : ℕ} {watched : Endpoint × Bool}
    (h : watched.1.Watched capacity) {event : Event}
    (hoff : LingerOff (observe step notePassive watched event)) :
    Closes watched event ↔ CloseDrained watched event := by
  constructor
  · intro hcloses hcheck hpassive hdone hactive hreset
    have hclosed := hcloses hcheck hpassive hdone
    rw [active_iff_of_done h hcheck hreset hdone (hoff hpassive)] at hclosed
    rcases hclosed with hinactive | hempty
    · rw [hactive] at hinactive
      cases hinactive
    · exact hempty
  · intro hdrained hcheck hpassive hdone
    by_cases hreset : watched.1.Resets event
    · exact active_of_resets hreset
    · rw [active_iff_of_done h hcheck hreset hdone (hoff hpassive)]
      cases hactive : watched.1.conn.active with
      | false => exact Or.inl rfl
      | true =>
          exact Or.inr (hdrained hcheck hpassive hdone hactive hreset)

/-- **Passive close.**  In a run, a connection whose peer ended its stream while
the outbound one was open does not linger from then on, and is inactive after
the first segment or tick after which both streams have ended and everything
sent was acknowledged, if and only if the application has read the whole inbound
stream when its end is assembled and when the connection would be closed. -/
theorem passive_close_iff (cfg : TCPConfig) (random : UInt32)
    (events : List Event) :
    let start := (new cfg random, false)
    (EveryState (observe step notePassive) start events LingerOff ∧
        EveryStep (observe step notePassive) start events Closes) ↔
      EveryStep (observe step notePassive) start events
        fun watched event =>
          FinDrained watched event ∧ CloseDrained watched event := by
  intro start
  have hstep : ∀ (watched : Endpoint × Bool) (event : Event),
      watched.1.Watched cfg.recvCapacity ∧ LingerOff watched →
        FinDrained watched event →
        (observe step notePassive watched event).1.Watched cfg.recvCapacity ∧
          LingerOff (observe step notePassive watched event) :=
    fun _ event h hguard =>
      ⟨h.1.step event, lingerOff_step h.1 h.2 hguard⟩
  have hstart : start.1.Watched cfg.recvCapacity ∧ LingerOff start :=
    ⟨watched_new cfg random, nofun⟩
  have hlinger : EveryState (observe step notePassive) start events
      LingerOff ↔
        EveryStep (observe step notePassive) start events FinDrained :=
    everyState_iff_everyStep hstep (fun _ h => h.2)
      (fun _ _ h hguard => not_lingerOff_step h.1 hguard) hstart
  rw [everyStep_and, hlinger]
  -- with the flag right in every state, the conditions on the closing events
  -- agree
  refine and_congr_right fun hguard => hguard.congr hstep ?_ hstart
  intro watched event h hdrained
  exact closes_iff_closeDrained h.1 (lingerOff_step h.1 h.2 hdrained)

/-- The peer sends a byte and the FIN in one segment; the application reads the
byte, ends its own stream and has its FIN acknowledged. -/
def readLate : List Event :=
  let synAck : TCPSegment :=
    { header := { syn := true, ack := true, ackno := ⟨1⟩, win := 10 } }
  let fin : TCPHeader :=
    { seqno := ⟨1⟩, fin := true, ack := true, ackno := ⟨1⟩, win := 10 }
  let ack : TCPSegment :=
    { header := { seqno := ⟨3⟩, ack := true, ackno := ⟨2⟩, win := 10 } }
  [.act .connect, .receive synAck, .receive { header := fin, payload := [7] },
    .act (.read 1), .act .endInputStream, .receive ack]

/-- Both streams are at their end and everything is acknowledged, but the
connection lingers. -/
theorem passive_close_lingers :
    let cfg : TCPConfig := { fixedIsn := some ⟨0⟩ }
    let e := run cfg 0 readLate
    e.conn.Done ∧ e.conn.inboundStream.eof = true ∧
      e.conn.lingerAfterStreamsFinish = true ∧ e.conn.active = true ∧
      ¬EveryState (observe step notePassive) (new cfg 0, false) readLate
        LingerOff := by
  decide +kernel

end Endpoint
end Sponge
