import Sponge.TCPConnection.Reset

/-!
# Acknowledgments for what is received

`segment_received` sends in four places: after an acknowledgment it fills the
window, it answers a SYN with a SYN, it answers anything else that occupies
sequence numbers with an empty segment, and it answers a keep-alive segment.
Between two operations nothing waits in the sender's queue, as long as the
connection was not reset, so that what is sent in one of these places is due to
the segment alone.
-/

namespace Sponge

open Support

namespace TCPSender

/-- A sender with an empty queue hands over nonempty segments only. -/
theorem length_pos_of_mem_fillWindow {s : TCPSender}
    (hqueue : s.segmentsOut = []) {seg : SentSegment}
    (hseg : seg ∈ s.fillWindow.segmentsOut) :
    0 < seg.lengthInSequenceSpace := by
  obtain ⟨segs, hfills, -⟩ := s.fillWindow_spec
  rw [hfills.segmentsOut, hqueue, List.nil_append] at hseg
  exact hfills.forall_mem (I := fun _ => True)
    (Q := fun seg => 0 < seg.lengthInSequenceSpace)
    (fun _ _ _ _ _ hemits => ⟨trivial, hemits.pos⟩) trivial seg hseg

end TCPSender

namespace TCPConnection

/-! ## The queue of the sender -/

theorem flushed_afterAck {c : TCPConnection} (h : c.sender.segmentsOut = [])
    (seg : TCPSegment) : (c.afterAck seg).sender.segmentsOut = [] := by
  obtain ⟨-, -, -, hqueue, -⟩ :=
    c.sender.ackReceived_unchanged seg.header.ackno seg.header.win
  rcases c.afterAck_cases seg with heq | heq | heq
  · rw [heq, h]
  · rw [heq, hqueue, h]
  · rw [heq]
    rfl

theorem flushed_reply {c : TCPConnection} (h : c.sender.segmentsOut = [])
    (seg : TCPSegment) : (c.reply seg).sender.segmentsOut = [] := by
  unfold reply
  split
  · split <;> rfl
  · exact h

theorem flushed_replyKeepAlive {c : TCPConnection}
    (h : c.sender.segmentsOut = []) (seg : TCPSegment) :
    (c.replyKeepAlive seg).sender.segmentsOut = [] := by
  unfold replyKeepAlive
  split
  · rfl
  · exact h

theorem flushed_segmentReceived {c : TCPConnection}
    (h : c.sender.segmentsOut = []) {seg : TCPSegment}
    (hrst : seg.header.rst = false) :
    (c.segmentReceived seg).sender.segmentsOut = [] := by
  rw [segmentReceived_eq c hrst]
  apply flushed_replyKeepAlive
  apply flushed_reply
  rw [sender_tryCleanClosed, sender_noteFirstEnd]
  exact flushed_afterAck h seg

/-! ## The answer to a segment -/

/-- After an acknowledgment only segments that occupy sequence numbers are
sent. -/
theorem length_pos_of_mem_ackAnswer {c : TCPConnection}
    (h : c.sender.segmentsOut = []) {seg : TCPSegment} {out : SentSegment}
    (hout : out ∈ c.ackAnswer seg) : 0 < out.lengthInSequenceSpace := by
  obtain ⟨-, -, -, hqueue, -⟩ :=
    c.sender.ackReceived_unchanged seg.header.ackno seg.header.win
  unfold ackAnswer at hout
  dsimp only at hout
  split at hout
  · exact TCPSender.length_pos_of_mem_fillWindow (hqueue.trans h) hout
  · simp at hout

/-- A segment that calls for neither reply is answered by what its
acknowledgment sets free, if at all. -/
theorem answer_eq_ackAnswer {c : TCPConnection} (h : c.sender.FinAfterSyn)
    {seg : TCPSegment} (hrst : seg.header.rst = false)
    (hreplies : ¬Replies (c.receiver.segmentReceived seg) seg)
    (hkeep : ¬RepliesKeepAlive (c.receiver.segmentReceived seg) seg) :
    c.answer seg = c.ackAnswer seg := by
  have hreply : (c.beforeReply seg).replyAnswer seg = [] := by
    rw [replyAnswer_eq_nil_iff (finAfterSyn_beforeReply h seg),
      receiver_beforeReply]
    exact hreplies
  have halive : ((c.beforeReply seg).reply seg).keepAliveAnswer seg = [] := by
    rw [keepAliveAnswer_eq_nil_iff, receiver_reply, receiver_beforeReply]
    exact hkeep
  rw [answer, if_neg (by simp [hrst]), hreply, halive, List.append_nil,
    List.append_nil]

theorem lengthInSequenceSpace_stamp (c : TCPConnection) (seg : SentSegment) :
    (c.stamp seg).lengthInSequenceSpace = seg.lengthInSequenceSpace := by
  unfold stamp
  split <;> rfl

theorem ack_stamp {c : TCPConnection} {ackno : WrappingInt32}
    (h : c.receiver.ackno? = some ackno) (seg : SentSegment) :
    (c.stamp seg).header.ack = true ∧ (c.stamp seg).header.ackno = ackno := by
  simp [stamp, h]

end TCPConnection

namespace Endpoint

theorem flushed_step {e : Endpoint} (h : e.conn.sender.segmentsOut = [])
    {event : Event} (hreset : ¬e.Resets event) :
    (e.step event).conn.sender.segmentsOut = [] := by
  cases event with
  | receive seg =>
      exact TCPConnection.flushed_segmentReceived h
        (Bool.eq_false_of_not_eq_true hreset)
  | act op =>
      cases op with
      | tick ms =>
          have htick : e.conn.tick ms =
              (e.conn.afterTick ms).tryCleanClosed := by
            rw [TCPConnection.tick_eq_ite]
            exact if_neg hreset
          simp only [step, act, htick, TCPConnection.sender_tryCleanClosed]
          rfl
      | connect | write _ | endInputStream => rfl
      | read _ | popOutput _ => exact h
      | transmit =>
          simp only [step, act]
          split <;> exact h

/-- **Acknowledgment discipline.**  In every state of a connection that was not
reset, and for every segment without the RST flag: if the segment occupies
sequence numbers and the receiver has an acknowledgment number after it, at
least one segment is appended to `segments_out`, and all that are carry this
number and the ACK flag; if it occupies none and is not a keep-alive segment,
every segment appended does. -/
theorem ack_discipline (cfg : TCPConfig) (random : UInt32)
    {events : List Event}
    (hevents : EveryStep step (new cfg random) events
      fun e event => ¬e.Resets event)
    {seg : TCPSegment} (hrst : seg.header.rst = false) :
    let e := run cfg random events
    let e' := e.step (.receive seg)
    let receiver := e.conn.receiver.segmentReceived seg
    ∃ appended, e'.conn.segmentsOut = e.conn.segmentsOut ++ appended ∧
      e'.conn.receiver = receiver ∧
      (∀ ackno, seg.lengthInSequenceSpace ≠ 0 →
        receiver.ackno? = some ackno →
        appended ≠ [] ∧ ∀ out ∈ appended,
          out.header.ack = true ∧ out.header.ackno = ackno) ∧
      (seg.lengthInSequenceSpace = 0 →
        receiver.ackno?.map (fun ackno => ackno.sub 1) ≠
          some seg.header.seqno →
        ∀ out ∈ appended, out.lengthInSequenceSpace ≠ 0) := by
  intro e e' receiver
  obtain ⟨-, hsyn⟩ := valid_finAfterSyn_run cfg random events
  have hflushed : e.conn.sender.segmentsOut = [] := hevents.invariant
    (I := fun e : Endpoint => e.conn.sender.segmentsOut = [])
    (fun _ _ h hreset => flushed_step h hreset) rfl
  have hmoves := e.conn.moves_segmentReceived hrst
  refine ⟨_, hmoves.segmentsOut, hmoves.receiver, ?_, ?_⟩
  · intro ackno hlength hackno
    constructor
    · intro hnone
      rw [List.map_eq_nil_iff, TCPConnection.answer_eq_nil_iff hsyn] at hnone
      rcases hnone with hfalse | ⟨-, hsilent, -⟩
      · rw [hrst] at hfalse
        cases hfalse
      · exact hsilent ⟨hlength, by rw [hackno]; rfl⟩
    · intro out hout
      obtain ⟨raw, -, rfl⟩ := List.mem_map.mp hout
      exact TCPConnection.ack_stamp hackno raw
  · intro hlength hkeep out hout
    obtain ⟨raw, hraw, rfl⟩ := List.mem_map.mp hout
    rw [TCPConnection.answer_eq_ackAnswer hsyn hrst (fun h => h.1 hlength)
      (fun h => hkeep h.2)] at hraw
    rw [TCPConnection.lengthInSequenceSpace_stamp]
    exact (TCPConnection.length_pos_of_mem_ackAnswer hflushed hraw).ne'

/-- A connection is opened and receives a byte, which it acknowledges. -/
theorem ack_discipline_byte :
    let synAck : TCPSegment :=
      { header := { syn := true, ack := true, ackno := ⟨1⟩, win := 10 } }
    let byte : TCPSegment := { header := { seqno := ⟨1⟩ }, payload := [7] }
    let e := run { fixedIsn := some ⟨0⟩ } 0 [.act .connect, .receive synAck]
    ∃ appended, (e.step (.receive byte)).conn.segmentsOut =
        e.conn.segmentsOut ++ appended ∧
      appended ≠ [] ∧
      ∀ out ∈ appended, out.header.ack = true ∧ out.header.ackno = ⟨2⟩ := by
  intro synAck byte e
  have hevents : EveryStep step (new { fixedIsn := some ⟨0⟩ } 0)
      [.act .connect, .receive synAck] fun e event => ¬e.Resets event := by
    decide +kernel
  have hrst : byte.header.rst = false := rfl
  obtain ⟨appended, happend, -, hacked, -⟩ :=
    ack_discipline { fixedIsn := some ⟨0⟩ } 0 hevents hrst
  exact ⟨appended, happend, hacked ⟨2⟩ (by decide) (by decide +kernel)⟩

end Endpoint
end Sponge
