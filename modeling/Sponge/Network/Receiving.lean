import Sponge.StreamReassembler.Window
import Sponge.TCPReceiver.Session
import Sponge.TCPSender.Outgoing

/-!
# A receiver fed by one sender

The receiver of one endpoint and the outgoing stream of the other: as long as
every segment that arrives is a piece of that stream, stays inside the window
and has a sequence number close to the acknowledged one, the receiver
reassembles exactly that stream and never has to drop a byte it accepts.
-/

namespace Sponge
namespace TCPReceiver
namespace Session

open Support

/-- The session receives pieces of `o`. -/
structure Receiving (capacity : ℕ) (o : Outgoing) (s : Session) : Prop
    extends Valid capacity s where
  isn_eq : s.receiver.synArrived = true →
    s.receiver.isn = o.isn ∧ o.syn = true
  reassembles : s.stream.Reassembles o.payload
  fin : s.receiver.reassembler.eof = true → o.fin = true
  inWindow : s.stream.PendingInWindow capacity

theorem receiving_new (capacity : ℕ) (o : Outgoing) :
    (new capacity).Receiving capacity o where
  toValid := valid_new capacity
  isn_eq := nofun
  reassembles := StreamReassembler.Session.reassembles_new _ capacity
  fin := nofun
  inWindow := StreamReassembler.Session.pendingInWindow_new capacity

variable {capacity : ℕ} {o : Outgoing} {s : Session} {seg : SentSegment}

theorem Receiving.mono (h : s.Receiving capacity o) {o' : Outgoing}
    (hle : o ≤ o') : s.Receiving capacity o' where
  toValid := h.toValid
  isn_eq := by
    intro hsyn
    obtain ⟨hisn, ho⟩ := h.isn_eq hsyn
    exact ⟨hisn.trans hle.isn.symm, hle.syn ho⟩
  reassembles := by
    refine h.reassembles.mono hle.payload ?_
    intro heof
    exact ((hle.fin (h.fin heof)).2).symm
  fin := fun heof => (hle.fin (h.fin heof)).1
  inWindow := h.inWindow

/-- Nothing is acknowledged that was not sent. -/
theorem Receiving.ackno_le (h : s.Receiving capacity o) :
    s.receiver.ackno ≤ o.next := by
  rcases h.ackno with ⟨hsyn, hackno⟩ | ⟨hzero, -⟩
  · have hnidx := h.reassembles.nidx_le h.stream
    obtain ⟨-, ho⟩ := h.isn_eq hsyn
    have hended : s.receiver.streamOut.inputEnded.toNat ≤ o.fin.toNat := by
      cases hend : s.receiver.streamOut.inputEnded with
      | false => exact Nat.zero_le _
      | true => rw [h.fin (h.reassembles.ended.mp hend).1]
    simp only [Session.stream] at hnidx
    rw [hackno, Outgoing.next, ho, Bool.toNat_true]
    omega
  · omega

theorem Receiving.step_popOutput (h : s.Receiving capacity o) (len : ℕ) :
    (s.step (.popOutput len)).Receiving capacity o where
  toValid := h.toValid.step_popOutput len
  isn_eq := h.isn_eq
  reassembles := h.reassembles.step_popOutput len
  fin := h.fin
  inWindow := h.inWindow.step_popOutput len

theorem Receiving.setError (h : s.Receiving capacity o) :
    Receiving capacity o
      { s with
        receiver :=
          { s.receiver with
            reassembler :=
              { s.receiver.reassembler with
                output := s.receiver.reassembler.output.setError } } } := by
  obtain ⟨⟨⟨⟨hsep, hu, hcap⟩, hcapacity, hnidx⟩, hcap', hackno⟩, hisn,
    ⟨⟨hassembled, hpieces⟩, heidx, hended⟩, hfin, hin⟩ := h
  exact ⟨⟨⟨⟨hsep, hu, hcap⟩, hcapacity, hnidx⟩, hcap', hackno⟩, hisn,
    ⟨⟨hassembled, hpieces⟩, heidx, hended⟩, hfin, hin⟩

/-- The segment stays inside the window that ends at `edge`, or occupies a
single sequence number. -/
def FitsEdge (edge : ℕ) (seg : SentSegment) : Prop :=
  seg.absSeqno + seg.lengthInSequenceSpace ≤ edge ∨
    seg.lengthInSequenceSpace ≤ 1

/-! ## A segment arrives -/

/-- A SYN is the segment with number 0, so it carries the initial number. -/
theorem Receiving.isn_noteSyn (h : s.Receiving capacity o)
    (hseg : o.Carries seg)
    (hsyn : (s.receiver.noteSyn seg.toTCPSegment).synArrived = true) :
    (s.receiver.noteSyn seg.toTCPSegment).isn = o.isn ∧ o.syn = true := by
  unfold noteSyn at hsyn ⊢
  split
  · rename_i hflag
    refine ⟨by rw [hseg.seqno, hseg.syn hflag, wrap_zero], ?_⟩
    by_contra hno
    have hnext := hseg.le_next
    obtain ⟨hpayload, hfin⟩ := o.synFirst (Bool.eq_false_of_not_eq_true hno)
    rw [Outgoing.next, Bool.eq_false_of_not_eq_true hno, hpayload, hfin,
      TCPSegment.lengthInSequenceSpace_eq, hflag] at hnext
    simp at hnext
  · rename_i hflag
    rw [if_neg hflag] at hsyn
    exact h.isn_eq hsyn

/-- The stream index that the receiver computes is the true one. -/
theorem Receiving.streamIndex? (h : s.Receiving capacity o)
    (hseg : o.Carries seg)
    (hnear : Near seg.absSeqno s.receiver.ackno) {index : ℕ}
    (hindex : (s.receiver.noteSyn seg.toTCPSegment).streamIndex?
      seg.toTCPSegment = some index) :
    index = seg.absSeqno + seg.header.syn.toNat - 1 ∧
      seg.absSeqno < s.receiver.edge ∧
      1 ≤ seg.absSeqno + seg.header.syn.toNat := by
  obtain ⟨hsyn, hzero, hlt, hidx⟩ := streamIndex?_eq_some.mp hindex
  obtain ⟨hisn, -⟩ := h.isn_noteSyn hseg hsyn
  rw [hisn, ackno_noteSyn, hseg.seqno, unwrap_wrap _ hnear] at hzero hlt hidx
  rw [windowSize_noteSyn] at hlt
  refine ⟨hidx, ?_, ?_⟩
  · unfold edge
    omega
  · cases hflag : seg.header.syn with
    | true => rw [Bool.toNat_true]; omega
    | false =>
        have := hzero hflag
        rw [Bool.toNat_false]
        omega

/-- A segment that is accepted and fits ends inside the window. -/
theorem Receiving.end_le (h : s.Receiving capacity o)
    (hseg : o.Carries seg) (hnear : Near seg.absSeqno s.receiver.ackno)
    (hfits : FitsEdge s.receiver.edge seg) {index : ℕ}
    (hindex : (s.receiver.noteSyn seg.toTCPSegment).streamIndex?
      seg.toTCPSegment = some index) :
    seg.payload = [] ∨
      index + seg.payload.length ≤ s.consumed.length + capacity := by
  obtain ⟨rfl, hlt, hpos⟩ := h.streamIndex? hseg hnear hindex
  have hlen := TCPSegment.lengthInSequenceSpace_eq seg.toTCPSegment
  by_cases hpayload : seg.payload = []
  · exact Or.inl hpayload
  · right
    have hbytes := List.length_pos_of_ne_nil hpayload
    have hcap := h.wellFormed.capacity.trans h.stream.capacity_eq
    have hsz := s.receiver.streamOut.sz_le
    have hend : seg.absSeqno + seg.header.syn.toNat + seg.payload.length ≤
        s.receiver.edge := by
      rcases hfits with hfits | hfits <;> omega
    rcases h.ackno with ⟨-, hackno⟩ | ⟨hfresh, -⟩
    · have hedge := h.toValid.edge_eq (by omega)
      cases hended : s.receiver.streamOut.inputEnded with
      | false =>
          rw [hended, Bool.toNat_false] at hedge
          omega
      | true =>
          -- the whole stream is assembled, so the payload is old
          have hall := (h.reassembles.ended.mp hended).2
          have hle := length_le_of_isPrefix_drop hseg.payload hpayload
          have hnidx := h.stream.nidx
          simp only [Session.stream, streamOut] at *
          omega
    · have hwindow : s.receiver.windowSize ≤ capacity := by
        rw [windowSize, h.capacity_eq]
        exact Nat.sub_le _ _
      rw [edge, hfresh] at hend
      omega

/-- The push that an accepted segment causes ends inside the window. -/
theorem Receiving.fits_push (h : s.Receiving capacity o)
    (hseg : o.Carries seg) (hnear : Near seg.absSeqno s.receiver.ackno)
    (hfits : FitsEdge s.receiver.edge seg) {index : ℕ}
    (hindex : (s.receiver.noteSyn seg.toTCPSegment).streamIndex?
      seg.toTCPSegment = some index) :
    s.stream.Fits capacity (.push seg.payload index seg.header.fin) := by
  rcases h.end_le hseg hnear hfits hindex with hempty | hle
  · exact Or.inr (Or.inl hempty)
  · exact Or.inr (Or.inr (Or.inl hle))

theorem Receiving.step_segment (h : s.Receiving capacity o)
    (hseg : o.Carries seg) (hnear : Near seg.absSeqno s.receiver.ackno)
    (hfits : FitsEdge s.receiver.edge seg) :
    (s.step (.segment seg.toTCPSegment)).Receiving capacity o := by
  have hvalid := h.toValid.step_segment seg.toTCPSegment
  have hisn := fun hsyn => h.isn_noteSyn hseg hsyn
  rcases s.receiver.segmentReceived_cases seg.toTCPSegment with
    ⟨-, hdropped⟩ | ⟨index, hindex, -, hpushed⟩
  · simp only [step, hdropped] at hvalid ⊢
    refine ⟨hvalid, hisn, ?_, ?_, ?_⟩
    · simpa only [Session.stream, reassembler_noteSyn] using h.reassembles
    · simpa only [reassembler_noteSyn] using h.fin
    · simpa only [Session.stream, reassembler_noteSyn] using h.inWindow
  · have hpush := h.fits_push hseg hnear hfits hindex
    obtain ⟨hidx, -⟩ := h.streamIndex? hseg hnear hindex
    have hpiece : seg.payload <+: o.payload.drop index := by
      rw [hidx]
      exact hseg.payload
    have hreassembles := h.reassembles.step_push h.stream hpiece
      fun hfin => by rw [hidx]; exact hseg.fin_index hfin
    obtain ⟨w, hw⟩ := StreamReassembler.push_spec h.wellFormed seg.payload
      index seg.header.fin
    simp only [step, hpushed] at hvalid ⊢
    refine ⟨hvalid, hisn, hreassembles, ?_, h.inWindow.step_push h.stream hpush⟩
    intro heof
    rw [hw.eof_eq, Bool.or_eq_true] at heof
    rcases heof with hold | hnew
    · exact h.fin hold
    · exact (hseg.fin hnew).1

/-- The receiver after a segment that is not dropped. -/
theorem segmentReceived_of_streamIndex? {r : TCPReceiver} {seg : TCPSegment}
    {index : ℕ} (hindex : (r.noteSyn seg).streamIndex? seg = some index) :
    r.segmentReceived seg =
      { r.noteSyn seg with
        reassembler := r.reassembler.push seg.payload index seg.header.fin
        ackno :=
          (r.reassembler.push seg.payload index seg.header.fin).nidx + 1 +
            (r.reassembler.push seg.payload index
              seg.header.fin).output.inputEnded.toNat } := by
  rcases r.segmentReceived_cases seg with ⟨hnone, -⟩ | ⟨index', hsome, -, heq⟩
  · rw [hnone] at hindex
    cases hindex
  · obtain rfl := Option.some.inj (hsome.symm.trans hindex)
    exact heq

/-- What an accepted segment and the pending bytes cover is assembled or pending
afterwards. -/
theorem Receiving.covered_segment (h : s.Receiving capacity o)
    (hseg : o.Carries seg) (hnear : Near seg.absSeqno s.receiver.ackno)
    (hfits : FitsEdge s.receiver.edge seg) {index : ℕ}
    (hindex : (s.receiver.noteSyn seg.toTCPSegment).streamIndex?
      seg.toTCPSegment = some index) {i : ℕ}
    (hi : Covers ((index, seg.payload) :: s.receiver.reassembler.mp) i) :
    let r := s.receiver.reassembler.push seg.payload index seg.header.fin
    i < r.nidx ∨ Covers r.mp i := by
  obtain ⟨w, hw⟩ := StreamReassembler.push_spec h.wellFormed seg.payload
    index seg.header.fin
  refine hw.complete ?_ i hi
  intro j hj
  have hwindow := h.stream.windowEnd
  simp only [Session.stream] at hwindow
  rw [hwindow]
  rcases (covers_cons _ _ _).mp hj with hj | hj
  · rcases h.end_le hseg hnear hfits hindex with hempty | hend
    · rw [hempty] at hj
      simp only [List.length_nil] at hj
      omega
    · dsimp only at hj
      omega
  · exact h.inWindow j hj

/-- Nothing of an accepted segment is lost: every payload byte is assembled or
pending afterwards. -/
theorem Receiving.complete (h : s.Receiving capacity o)
    (hseg : o.Carries seg) (hnear : Near seg.absSeqno s.receiver.ackno)
    (hfits : FitsEdge s.receiver.edge seg) {index : ℕ}
    (hindex : (s.receiver.noteSyn seg.toTCPSegment).streamIndex?
      seg.toTCPSegment = some index) {i : ℕ} (hle : index ≤ i)
    (hlt : i < index + seg.payload.length) :
    let r := (s.receiver.segmentReceived seg.toTCPSegment).reassembler
    i < r.nextIdx ∨ Covers r.mp i := by
  intro r
  simp only [r, segmentReceived_of_streamIndex? hindex]
  exact h.covered_segment hseg hnear hfits hindex
    ((covers_cons _ _ _).mpr (Or.inl ⟨hle, hlt⟩))

end Session
end TCPReceiver
end Sponge
