import Sponge.TCPConnection.Outbox
import Sponge.TCPSender.Backoff

/-!
# After a reset

A connection is reset by a segment with the RST flag, or by a tick after too
many retransmissions.  The reset marks both streams and clears `active`, and no
operation asks for either: the sender keeps its outstanding segments, its timer
and what is left to send, and `send_rst` even leaves a segment in its queue.
`Quiet` says, for each operation, when the sender has nothing to send.
-/

namespace Sponge

open Support

/-! ## When a sender has nothing to send -/

namespace TCPSender

/-- Nothing waits in the queue, and `fill_window` adds nothing to it. -/
def Idle (s : TCPSender) : Prop :=
  s.segmentsOut = [] ∧ ¬s.CanSend s.endSeqno

instance (s : TCPSender) : Decidable s.Idle :=
  inferInstanceAs (Decidable (_ ∧ _))

/-- Before the SYN something can always be sent. -/
theorem canSend_of_nextSeqno_eq_zero {s : TCPSender} (h : s.FinAfterSyn)
    (hzero : s.nextSeqno = 0) : s.CanSend s.endSeqno := by
  refine ⟨?_, ?_, Or.inr (Or.inl hzero)⟩
  · by_contra hfin
    have hpos := h (Bool.eq_true_of_not_eq_false hfin)
    omega
  · rw [hzero, endSeqno_eq]
    omega

theorem segmentsOut_sendEmptySegment_ne_nil (s : TCPSender) :
    s.sendEmptySegment.segmentsOut ≠ [] := by
  simp [sendEmptySegment]

/-- A tick hands over nothing, if the queue is empty and the timer does not
expire. -/
theorem Valid.segmentsOut_tick_eq_nil_iff {s : TCPSender} (h : s.Valid)
    (ms : ℕ) :
    (s.tick ms).segmentsOut = [] ↔
      s.segmentsOut = [] ∧ ¬s.timer.Expires ms := by
  have hout : (s.tick ms).segmentsOut = s.segmentsOut ++
      if s.timer.Expires ms then
        (s.timer.outstandings.head?.map Prod.fst).toList
      else [] := s.timer.tickHandle_snd ms s.windowSize s.segmentsOut
  rw [hout, List.append_eq_nil_iff]
  by_cases hexpires : s.timer.Expires ms
  · have hsome := h.running.mp hexpires.1
    obtain ⟨entry, rest, hqueue⟩ := List.exists_cons_of_ne_nil hsome
    simp [hexpires, hqueue]
  · simp [hexpires]

end TCPSender

namespace TCPConnection

theorem ackAnswer_eq_nil_iff (c : TCPConnection) (seg : TCPSegment) :
    c.ackAnswer seg = [] ↔
      (seg.header.ack = true →
        (c.sender.ackReceived seg.header.ackno
          seg.header.win).nextSeqno ≠ 0 →
        (c.sender.ackReceived seg.header.ackno seg.header.win).Idle) := by
  unfold ackAnswer TCPSender.Idle
  generalize c.sender.ackReceived seg.header.ackno seg.header.win = sender
  rw [← TCPSender.segmentsOut_fillWindow_eq_nil_iff]
  by_cases hanswers : seg.header.ack = true ∧ sender.nextSeqno ≠ 0
  · simp [hanswers]
  · rw [if_neg hanswers]
    simp only [true_iff]
    intro hack hopened
    exact absurd ⟨hack, hopened⟩ hanswers

theorem replyAnswer_eq_nil_iff {c : TCPConnection}
    (h : c.sender.FinAfterSyn) (seg : TCPSegment) :
    c.replyAnswer seg = [] ↔ ¬Replies c.receiver seg := by
  unfold replyAnswer
  by_cases hreplies : Replies c.receiver seg
  · rw [if_pos hreplies]
    simp only [hreplies, not_true, iff_false]
    split
    · rename_i hfirst
      rw [TCPSender.segmentsOut_fillWindow_eq_nil_iff]
      intro hnil
      exact hnil.2 (TCPSender.canSend_of_nextSeqno_eq_zero h hfirst.1)
    · exact c.sender.segmentsOut_sendEmptySegment_ne_nil
  · simp [hreplies]

theorem keepAliveAnswer_eq_nil_iff (c : TCPConnection) (seg : TCPSegment) :
    c.keepAliveAnswer seg = [] ↔ ¬RepliesKeepAlive c.receiver seg := by
  unfold keepAliveAnswer
  by_cases hreplies : RepliesKeepAlive c.receiver seg
  · simp [hreplies, c.sender.segmentsOut_sendEmptySegment_ne_nil]
  · simp [hreplies]

theorem receiver_beforeReply (c : TCPConnection) (seg : TCPSegment) :
    (c.beforeReply seg).receiver = c.receiver.segmentReceived seg := by
  rw [beforeReply, receiver_tryCleanClosed, receiver_noteFirstEnd,
    receiver_afterAck]

theorem finAfterSyn_beforeReply {c : TCPConnection}
    (h : c.sender.FinAfterSyn) (seg : TCPSegment) :
    (c.beforeReply seg).sender.FinAfterSyn := by
  rw [beforeReply, sender_tryCleanClosed, sender_noteFirstEnd]
  exact stable_afterAck TCPSender.stable_finAfterSyn h seg

/-- A segment is not answered, if it carries the RST flag, or its
acknowledgment leaves nothing to send and neither of the two replies is
due. -/
theorem answer_eq_nil_iff {c : TCPConnection} (h : c.sender.FinAfterSyn)
    (seg : TCPSegment) :
    c.answer seg = [] ↔
      seg.header.rst = true ∨
        (c.ackAnswer seg = [] ∧
          ¬Replies (c.receiver.segmentReceived seg) seg ∧
          ¬RepliesKeepAlive (c.receiver.segmentReceived seg) seg) := by
  unfold answer
  cases hrst : seg.header.rst with
  | true => simp
  | false =>
      rw [if_neg (by simp), List.append_eq_nil_iff, List.append_eq_nil_iff,
        replyAnswer_eq_nil_iff (finAfterSyn_beforeReply h seg),
        keepAliveAnswer_eq_nil_iff, receiver_reply, receiver_beforeReply]
      simp [and_assoc]

end TCPConnection

namespace Endpoint

/-! ## Resets -/

/-- The event resets the connection. -/
def Resets (e : Endpoint) : Event → Prop
  | .receive seg => seg.header.rst = true
  | .act (.tick ms) =>
      TCPConfig.maxRetxAttempts <
        (e.conn.sender.tick ms).consecutiveRetransmissions
  | .act _ => False

instance (e : Endpoint) : (event : Event) → Decidable (e.Resets event)
  | .receive _ => inferInstanceAs (Decidable (_ = true))
  | .act (.tick _) => inferInstanceAs (Decidable (_ < _))
  | .act .connect | .act (.write _) | .act .endInputStream
  | .act (.read _) | .act (.popOutput _) | .act .transmit => .isFalse id

/-- What `send_rst` leaves on `segments_out` during an event. -/
def resetSegments (e : Endpoint) : Event → List SentSegment
  | .act (.tick ms) =>
      if e.Resets (.act (.tick ms)) then (e.conn.tick ms).segmentsOut else []
  | .receive _ | .act .connect | .act (.write _) | .act .endInputStream
  | .act (.read _) | .act (.popOutput _) | .act .transmit => []

/-- The segments that an event adds to `segments_out`: those that `update_queue`
moves, and the RST of a tick that resets the connection. -/
def added (e : Endpoint) (event : Event) : List SentSegment :=
  e.moved event ++ e.resetSegments event

/-- The event finds the connection with nothing to send. -/
def Quiet (e : Endpoint) : Event → Prop
  | .act .connect => e.conn.sender.Idle
  | .act (.write data) =>
      { e.conn.sender with
        stream := (e.conn.sender.stream.write data).1 }.Idle
  | .act .endInputStream =>
      { e.conn.sender with stream := e.conn.sender.stream.endInput }.Idle
  | .act (.tick ms) =>
      e.conn.sender.segmentsOut = [] ∧ ¬e.conn.sender.timer.Expires ms ∧
        e.conn.sender.consecutiveRetransmissions ≤ TCPConfig.maxRetxAttempts
  | .act (.read _) | .act (.popOutput _) | .act .transmit => True
  | .receive seg =>
      let sender :=
        e.conn.sender.ackReceived seg.header.ackno seg.header.win
      let receiver := e.conn.receiver.segmentReceived seg
      seg.header.rst = true ∨
        ((seg.header.ack = true → sender.nextSeqno ≠ 0 → sender.Idle) ∧
          ¬TCPConnection.Replies receiver seg ∧
          ¬TCPConnection.RepliesKeepAlive receiver seg)

/-- A reset by a tick leaves one segment, with the RST flag. -/
theorem segmentsOut_of_resets {e : Endpoint} {ms : ℕ}
    (h : e.Resets (.act (.tick ms))) :
    ∃ seg, (e.step (.act (.tick ms))).conn.segmentsOut = [seg] ∧
      seg.header.rst = true := by
  have htick : (e.step (.act (.tick ms))).conn =
      (e.conn.afterTick ms).sendRst := by
    simp only [step, act, TCPConnection.tick_eq_ite]
    exact if_pos h
  rw [htick]
  exact (e.conn.afterTick ms).segmentsOut_sendRst

theorem moved_eq_nil_iff (e : Endpoint) (event : Event) :
    e.moved event = [] ↔ e.offered event = [] := by
  rw [moved_eq, List.map_eq_nil_iff]

theorem resetSegments_tick_eq_nil_iff (e : Endpoint) (ms : ℕ) :
    e.resetSegments (.act (.tick ms)) = [] ↔ ¬e.Resets (.act (.tick ms)) := by
  unfold resetSegments
  by_cases hresets : e.Resets (.act (.tick ms))
  · obtain ⟨seg, hqueue, -⟩ := segmentsOut_of_resets hresets
    have htick : (e.conn.tick ms).segmentsOut = [seg] := hqueue
    simp [hresets, htick]
  · simp [hresets]

/-- A tick adds nothing, if nothing waits, the timer does not expire and the
retransmissions are not too many already. -/
theorem added_tick_eq_nil_iff {e : Endpoint} (hvalid : e.conn.sender.Valid)
    (ms : ℕ) :
    e.added (.act (.tick ms)) = [] ↔ e.Quiet (.act (.tick ms)) := by
  rw [added, List.append_eq_nil_iff, moved_eq_nil_iff, offered,
    resetSegments_tick_eq_nil_iff, hvalid.segmentsOut_tick_eq_nil_iff, Quiet,
    and_assoc]
  refine and_congr_right fun _ => and_congr_right fun hexpires => ?_
  obtain ⟨-, hnumbers⟩ := e.conn.sender.timer.tickHandle_counters ms
    e.conn.sender.windowSize e.conn.sender.segmentsOut
  rw [if_neg (fun h => hexpires h.1)] at hnumbers
  have hcount : (e.conn.sender.tick ms).consecutiveRetransmissions =
      e.conn.sender.consecutiveRetransmissions := hnumbers.1
  rw [Resets, hcount, Nat.not_lt]

/-- An event adds nothing to `segments_out` exactly when it is quiet. -/
theorem added_eq_nil_iff {e : Endpoint} (hvalid : e.conn.sender.Valid)
    (hsyn : e.conn.sender.FinAfterSyn) (event : Event) :
    e.added event = [] ↔ e.Quiet event := by
  cases event with
  | receive seg =>
      rw [added, resetSegments, List.append_nil, moved_eq_nil_iff, offered,
        TCPConnection.answer_eq_nil_iff hsyn,
        TCPConnection.ackAnswer_eq_nil_iff, Quiet]
  | act op =>
      cases op with
      | tick ms => exact added_tick_eq_nil_iff hvalid ms
      | connect | write _ | endInputStream =>
          rw [added, resetSegments, List.append_nil, moved_eq_nil_iff,
            offered, Quiet]
          exact TCPSender.segmentsOut_fillWindow_eq_nil_iff _
      | read _ | popOutput _ | transmit =>
          simp [added, resetSegments, moved_eq_nil_iff, offered, Quiet]

/-! ## Runs after a reset -/

theorem valid_step {e : Endpoint} (h : e.conn.sender.Valid) (event : Event) :
    (e.step event).conn.sender.Valid :=
  stable_step TCPSender.stable_valid h fun _ _ => h.with_streams _ _

theorem finAfterSyn_step {e : Endpoint} (h : e.conn.sender.FinAfterSyn)
    (event : Event) : (e.step event).conn.sender.FinAfterSyn :=
  stable_step TCPSender.stable_finAfterSyn h fun _ _ => h

theorem valid_finAfterSyn_run (cfg : TCPConfig) (random : UInt32)
    (events : List Event) :
    (run cfg random events).conn.sender.Valid ∧
      (run cfg random events).conn.sender.FinAfterSyn :=
  foldl_invariant (I := fun e : Endpoint =>
      e.conn.sender.Valid ∧ e.conn.sender.FinAfterSyn)
    (fun _ event h => ⟨valid_step h.1 event, finAfterSyn_step h.2 event⟩)
    events
    ⟨TCPSender.valid_new cfg.sendCapacity cfg.rtTimeout cfg.fixedIsn random,
      nofun⟩

/-- **A reset connection.**  After an event that resets the connection, no later
event adds a segment to `segments_out` if and only if each of them is quiet; and
if the event is a tick, it leaves `segments_out` with one segment, which carries
the RST flag. -/
theorem silent_iff_quiet (cfg : TCPConfig) (random : UInt32)
    {before : List Event} {event : Event} (after : List Event)
    (hreset : (run cfg random before).Resets event) :
    let e := (run cfg random before).step event
    (EveryStep step e after (fun e event => e.added event = []) ↔
        EveryStep step e after Quiet) ∧
      ∀ ms, event = .act (.tick ms) →
        ∃ seg, e.conn.segmentsOut = [seg] ∧ seg.header.rst = true := by
  intro e
  obtain ⟨hvalid, hsyn⟩ := valid_finAfterSyn_run cfg random before
  refine ⟨?_, ?_⟩
  · exact everyStep_congr (I := fun e : Endpoint =>
        e.conn.sender.Valid ∧ e.conn.sender.FinAfterSyn)
      (fun _ event h => ⟨valid_step h.1 event, finAfterSyn_step h.2 event⟩)
      (fun _ event h => added_eq_nil_iff h.1 h.2 event)
      ⟨valid_step hvalid event, finAfterSyn_step hsyn event⟩
  · rintro ms rfl
    exact segmentsOut_of_resets hreset

/-- A listening connection that was reset does not answer a tick. -/
theorem silent_listening :
    let rst : TCPSegment := { header := { rst := true } }
    EveryStep step ((new {} 0).step (.receive rst)) [.act (.tick 1000)]
      (fun e event => e.added event = []) := by
  intro rst
  have hreset : (run {} 0 []).Resets (.receive rst) := rfl
  refine (silent_iff_quiet {} 0 [.act (.tick 1000)] hreset).1.mpr ?_
  refine everyStep_cons.mpr ⟨?_, everyStep_nil⟩
  exact ⟨rfl, by decide +kernel, by decide +kernel⟩

/-- A connection is opened and reset by its peer; when its owner then ends the
outbound stream, it sends the FIN. -/
theorem not_silent_endInputStream :
    let synAck : TCPSegment :=
      { header := { syn := true, ack := true, ackno := ⟨1⟩, win := 10 } }
    let rst : TCPSegment := { header := { rst := true } }
    let before : List Event := [.act .connect, .receive synAck]
    let e := run { fixedIsn := some ⟨0⟩ } 0 before
    e.Resets (.receive rst) ∧
      ¬EveryStep step (e.step (.receive rst)) [.act .endInputStream]
        (fun e event => e.added event = []) := by
  decide +kernel

end Endpoint
end Sponge
