import Sponge.Network.Model

/-!
# Safety of two connections on an unreliable network

From the joint invariant: the bytes that arrive are those that were written, in
order and without a gap; nothing leaves the queue of outstanding segments before
the other end has it; and no segment is ever cut for lack of room.
-/

namespace Sponge
namespace Network

open Support

/-! ## An exchange -/

def smallConfig : Side → TCPConfig := fun _ => Endpoint.smallConfig

/-- A connection is opened; two bytes and the FIN are sent, arrive in the wrong
order and the bytes a second time, and one of them is read. -/
def exchange : List Event :=
  [.act .a .connect, .act .a .transmit, .deliver .b 0, .act .b .transmit,
    .deliver .a 0, .act .a .transmit, .act .a (.write [1, 2]),
    .act .a .endInputStream, .act .a .transmit, .act .a .transmit,
    .deliver .b 3, .deliver .b 2, .deliver .b 2, .act .b (.read 1)]

/-! ## The stream -/

/-- The streams between two joined endpoints: what one end has assembled is what
the other has accepted, up to the point reached, and all of it at the end. -/
theorem Joined.streams {cfg : Side → TCPConfig} {n : Network}
    (h : Joined cfg n) (hdrained : ∀ side, (n side).conn.sender.Drained)
    (side : Side) :
    let src := n side
    let dst := n side.other
    dst.consumed ++ dst.conn.inboundStream.contents <+: src.accepted ∧
      (dst.conn.inboundStream.inputEnded = true →
        dst.consumed ++ dst.conn.inboundStream.contents = src.accepted) := by
  intro src dst
  obtain ⟨o, h⟩ := h
  have hsending : src.conn.sender.Sending src.accepted (o side) :=
    (h side).sending
  have hreceiving := (h side.other).receiving
  rw [Side.other_other] at hreceiving
  have hassembled := hreceiving.reassembles.assembled
  constructor
  · exact hassembled.trans (hsending.contents ▸ List.prefix_append _ _)
  · intro hended
    obtain ⟨heof, hnidx⟩ := hreceiving.reassembles.ended.mp hended
    -- the FIN was assembled, so it was sent, at the end of the stream
    have hfin : src.conn.sender.finSended = true :=
      hsending.fin_eq.trans (hreceiving.fin heof)
    obtain ⟨-, hempty⟩ := ByteStream.eof_iff.mp (hdrained side hfin)
    have hall : src.accepted = (o side).payload := by
      rw [← hsending.contents, List.length_eq_zero_iff.mp
        ((ByteStream.length_contents _).trans hempty), List.append_nil]
    rw [hall]
    refine hassembled.eq_of_length ?_
    rw [hreceiving.stream.length_assembled]
    exact hnidx

/-- **End-to-end safety of the stream.**  Whatever the network loses, repeats
and reorders, the bytes that one end has read and buffered are a prefix of the
bytes that `write` accepted at the other, and all of them once the inbound
stream has ended. -/
theorem stream_safety {cfg : Side → TCPConfig} {random : Side → UInt32}
    {events : List Event}
    (hnear : EveryStep step (new cfg random) events DeliversNear)
    (hwrite : EveryStep step (new cfg random) events NoLateWrite)
    (side : Side) :
    let src := run cfg random events side
    let dst := run cfg random events side.other
    dst.consumed ++ dst.conn.inboundStream.contents <+: src.accepted ∧
      (dst.conn.inboundStream.inputEnded = true →
        dst.consumed ++ dst.conn.inboundStream.contents = src.accepted) := by
  exact (joined_run hnear).streams (drained_run hwrite) side

theorem stream_safety_exchange :
    let dst := run smallConfig (fun _ => 0) exchange .b
    dst.conn.inboundStream.inputEnded = true ∧
      dst.consumed ++ dst.conn.inboundStream.contents = [1, 2] := by
  intro dst
  have hended : dst.conn.inboundStream.inputEnded = true := by decide +kernel
  refine ⟨hended, ?_⟩
  have haccepted : (run smallConfig (fun _ => 0) exchange .a).accepted =
      [1, 2] := by decide +kernel
  exact ((stream_safety (by decide +kernel) (by decide +kernel)
    .a).2 hended).trans haccepted

/-! ## The outstanding segments -/

/-- **No byte is forgotten before the other end has it.**  The sender's
acknowledged number is at most the receiver's, which is at most the next one to
be sent, and every number sent from the receiver's on belongs to an outstanding
segment. -/
theorem retention {cfg : Side → TCPConfig} {random : Side → UInt32}
    {events : List Event}
    (hnear : EveryStep step (new cfg random) events DeliversNear)
    (side : Side) :
    let src := (run cfg random events side).conn.sender
    let dst := (run cfg random events side.other).conn.receiver
    src.ackno ≤ dst.ackno ∧ dst.ackno ≤ src.nextSeqno ∧
      ∀ k, dst.ackno ≤ k → k < src.nextSeqno →
        ∃ entry ∈ src.timer.outstandings, entry.1.absSeqno ≤ k ∧
          k < entry.1.absSeqno + entry.1.lengthInSequenceSpace := by
  intro src dst
  obtain ⟨o, h⟩ := joined_run hnear
  have hreceiving := (h side.other).receiving
  rw [Side.other_other] at hreceiving
  have hsending : src.Sending _ (o side) := (h side).sending
  refine ⟨(h side).acked, ?_, ?_⟩
  · rw [hsending.next_eq]
    exact hreceiving.ackno_le
  · intro k hle hlt
    exact hsending.chain.exists_mem ((h side).queueStart.trans hle) hlt

/-- Before the two bytes arrive, the first of them is outstanding. -/
theorem retention_exchange :
    let src := (run smallConfig (fun _ => 0) (exchange.take 10) .a).conn.sender
    ∃ entry ∈ src.timer.outstandings, entry.1.absSeqno ≤ 1 ∧
      1 < entry.1.absSeqno + entry.1.lengthInSequenceSpace := by
  intro src
  have hnear : EveryStep step (new smallConfig fun _ => 0)
      (exchange.take 10) DeliversNear := by
    decide +kernel
  obtain ⟨-, -, hcovered⟩ := retention hnear .a
  exact hcovered 1 (by decide +kernel) (by decide +kernel)

/-! ## Flow control -/

/-- What is held at each end fits into its capacity. -/
def FitsCapacity (cfg : Side → TCPConfig) (n : Network) : Prop :=
  ∀ side, (n side).conn.unassembledBytes +
    (n side).conn.inboundStream.bufferSize ≤ (cfg side).recvCapacity

/-- When the delivered segment is passed to the reassembler, the size to be
stored is not computed from a negative difference, and every payload byte is
assembled or pending afterwards. -/
def DeliversWhole (n : Network) : Event → Prop
  | .act _ _ => True
  | .deliver side k =>
      ∀ seg ∈ (n side.other).wire[k]?, seg.header.rst = false →
        ∀ index, ((n side).conn.receiver.noteSyn
            seg.toTCPSegment).streamIndex? seg.toTCPSegment = some index →
          (n side).inbound.stream.NoUnderflow
            (.push seg.payload index seg.header.fin) ∧
          ∀ i, index ≤ i → i < index + seg.payload.length →
            let r := (n.step (.deliver side k) side).conn.receiver.reassembler
            i < r.nextIdx ∨ Covers r.mp i

theorem Joined.fitsCapacity {cfg : Side → TCPConfig} {n : Network}
    (h : Joined cfg n) : FitsCapacity cfg n := by
  obtain ⟨o, h⟩ := h
  intro side
  have hreceiving := (h side).receiving
  exact hreceiving.stream.held_le hreceiving.inWindow

theorem Joined.deliversWhole {cfg : Side → TCPConfig} {n : Network}
    (h : Joined cfg n) {event : Event} (hnear : n.DeliversNear event) :
    n.DeliversWhole event := by
  obtain ⟨o, h⟩ := h
  cases event with
  | act side op => trivial
  | deliver side k =>
      intro seg hseg hrst index hindex
      have hreceiving := (h side).receiving
      have hlegit := legit_of_wire h hseg
      obtain ⟨hseqno, -⟩ := hnear seg hseg
      refine ⟨hreceiving.stream.noUnderflow hreceiving.inWindow _, ?_⟩
      intro i hle hlt
      have hstep : (n.step (.deliver side k) side).conn.receiver =
          (n side).conn.receiver.segmentReceived seg.toTCPSegment := by
        have hwire : (n side.other).wire[k]? = some seg := hseg
        simp only [Network.step, hwire, Function.update_self]
        exact TCPConnection.receiver_segmentReceived _ hrst
      rw [hstep]
      exact hreceiving.complete hlegit.carries hseqno hlegit.fits hindex hle
        hlt

/-- **Flow control is honoured end to end.**  In every state each end holds at
most its capacity, and every segment that is passed to a reassembler is taken in
whole. -/
theorem flow_control {cfg : Side → TCPConfig} {random : Side → UInt32}
    {events : List Event}
    (hnear : EveryStep step (new cfg random) events DeliversNear) :
    EveryState step (new cfg random) events (FitsCapacity cfg) ∧
      EveryStep step (new cfg random) events DeliversWhole := by
  constructor
  · intro done hdone
    exact (joined_run (hnear.restrict hdone)).fitsCapacity
  · intro done event hdone
    have hbefore := hnear.restrict
      ((List.prefix_append done [event]).trans hdone)
    exact (joined_run hbefore).deliversWhole (hnear done event hdone)

theorem flow_control_exchange :
    EveryStep step (new smallConfig fun _ => 0) exchange DeliversNear ∧
      EveryStep step (new smallConfig fun _ => 0) exchange DeliversWhole := by
  have hnear : EveryStep step (new smallConfig fun _ => 0) exchange
      DeliversNear := by decide +kernel
  exact ⟨hnear, (flow_control hnear).2⟩

end Network
end Sponge
