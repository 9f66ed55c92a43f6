import Sponge.Network.Receiving

/-!
# What has arrived

A sequence number has arrived at a receiver when it is acknowledged, or is kept
until the numbers before it come in.  Every number of a segment that lies inside
the window arrives with it, and nothing that has arrived is lost.  When all that
was sent has arrived, in whatever order, all of it is acknowledged.
-/

namespace Sponge
namespace TCPReceiver
namespace Session

open Support

/-- The sequence number `n` has arrived. -/
def Has (s : Session) (n : ℕ) : Prop :=
  n < s.receiver.ackno ∨
    (1 ≤ n ∧ Covers s.receiver.reassembler.mp (n - 1)) ∨
    (s.receiver.reassembler.eof = true ∧
      n = s.receiver.reassembler.eidx + 1)

variable {capacity : ℕ} {o : Outgoing} {s : Session} {seg : SentSegment}

/-! ## One segment -/

theorem Valid.synArrived_of_ackno (h : s.Valid capacity)
    (hpos : 0 < s.receiver.ackno) : s.receiver.synArrived = true := by
  rcases h.ackno with ⟨hsyn, -⟩ | ⟨hzero, -⟩
  · exact hsyn
  · omega

theorem synArrived_noteSyn {r : TCPReceiver} {seg : TCPSegment}
    (h : r.synArrived = true ∨ seg.header.syn = true) :
    (r.noteSyn seg).synArrived = true := by
  unfold noteSyn
  split
  · rfl
  · rename_i hflag
    exact h.resolve_right hflag

/-- A segment that starts inside the window is not dropped. -/
theorem Receiving.exists_streamIndex? (h : s.Receiving capacity o)
    (hseg : o.Carries seg) (hnear : Near seg.absSeqno s.receiver.ackno)
    (hsyn : s.receiver.synArrived = true ∨ seg.header.syn = true)
    (hpos : 0 < seg.lengthInSequenceSpace)
    (hlt : seg.absSeqno < s.receiver.edge) :
    ∃ index, (s.receiver.noteSyn seg.toTCPSegment).streamIndex?
      seg.toTCPSegment = some index := by
  have harrived := synArrived_noteSyn hsyn
  obtain ⟨hisn, -⟩ := h.isn_noteSyn hseg harrived
  have hunwrap : unwrap seg.header.seqno
      (s.receiver.noteSyn seg.toTCPSegment).isn
      (s.receiver.noteSyn seg.toTCPSegment).ackno = seg.absSeqno := by
    rw [hisn, ackno_noteSyn, hseg.seqno, unwrap_wrap _ hnear]
  refine ⟨seg.absSeqno + seg.header.syn.toNat - 1,
    streamIndex?_eq_some.mpr ⟨harrived, ?_, ?_, ?_⟩⟩
  · intro hflag hzero
    rw [hunwrap] at hzero
    rcases hseg.zero hzero with htrue | hempty
    · rw [hflag] at htrue
      cases htrue
    · omega
  · rw [hunwrap, windowSize_noteSyn, ackno_noteSyn, Nat.add_comm]
    exact hlt
  · rw [hunwrap]

theorem has_of_pushed {r : TCPReceiver} {reassembler : StreamReassembler}
    {consumed : List UInt8} {n : ℕ} (hn : 1 ≤ n)
    (h : n - 1 < reassembler.nidx ∨ Covers reassembler.mp (n - 1)) :
    Has ⟨{ r with
      reassembler := reassembler
      ackno := reassembler.nidx + 1 +
        reassembler.output.inputEnded.toNat }, consumed⟩ n := by
  rcases h with hassembled | hpending
  · left
    dsimp only
    omega
  · exact Or.inr (Or.inl ⟨hn, hpending⟩)

/-- All numbers of a segment inside the window arrive with it. -/
theorem Receiving.has_segment (h : s.Receiving capacity o)
    (hseg : o.Carries seg) (hnear : Near seg.absSeqno s.receiver.ackno)
    (hsyn : s.receiver.synArrived = true ∨ seg.header.syn = true)
    (hend : seg.absSeqno + seg.lengthInSequenceSpace ≤ s.receiver.edge)
    {n : ℕ} (hle : seg.absSeqno ≤ n)
    (hlt : n < seg.absSeqno + seg.lengthInSequenceSpace) :
    (s.step (.segment seg.toTCPSegment)).Has n := by
  obtain ⟨index, hindex⟩ := h.exists_streamIndex? hseg hnear hsyn (by omega)
    (by omega)
  obtain ⟨hidx, -, hpos⟩ := h.streamIndex? hseg hnear hindex
  have hlen := TCPSegment.lengthInSequenceSpace_eq seg.toTCPSegment
  rw [hlen] at hlt
  simp only [step, segmentReceived_of_streamIndex? hindex]
  rcases Nat.lt_or_ge n (seg.absSeqno + seg.header.syn.toNat) with hfirst | hge
  · -- the SYN
    have hflag : seg.header.syn = true := by
      by_contra hfalse
      rw [Bool.eq_false_of_not_eq_true hfalse, Bool.toNat_false] at hfirst
      omega
    left
    rw [hseg.syn hflag, hflag, Bool.toNat_true] at hfirst
    dsimp only
    omega
  rcases Nat.lt_or_ge (n - 1) (index + seg.payload.length) with hbyte | hfin
  · refine has_of_pushed (by omega) ?_
    refine h.covered_segment hseg hnear (Or.inl hend) hindex ?_
    exact (covers_cons _ _ _).mpr (Or.inl ⟨by omega, hbyte⟩)
  · -- the FIN
    have hflag : seg.header.fin = true := by
      by_contra hfalse
      rw [Bool.eq_false_of_not_eq_true hfalse, Bool.toNat_false] at hlt
      omega
    obtain ⟨w, hw⟩ := StreamReassembler.push_spec h.wellFormed seg.payload
      index seg.header.fin
    rw [hflag, Bool.toNat_true] at hlt
    have heidx := hw.eidx_eq
    rw [if_pos hflag] at heidx
    refine Or.inr (Or.inr ⟨?_, ?_⟩)
    · dsimp only
      rw [hw.eof_eq, hflag, Bool.or_true]
    · dsimp only
      omega

/-- Nothing that has arrived is lost. -/
theorem Has.step_segment {n : ℕ} (hn : s.Has n)
    (h : s.Receiving capacity o) (hseg : o.Carries seg)
    (hnear : Near seg.absSeqno s.receiver.ackno)
    (hfits : FitsEdge s.receiver.edge seg) :
    (s.step (.segment seg.toTCPSegment)).Has n := by
  have hackno := h.toValid.ackno_le_step (.segment seg.toTCPSegment)
  rcases hn with hacked | hkept
  · exact Or.inl (hacked.trans_le hackno)
  rcases s.receiver.segmentReceived_cases seg.toTCPSegment with
    ⟨-, hdropped⟩ | ⟨index, hindex, -, hpushed⟩
  · right
    simpa only [step, hdropped, reassembler_noteSyn] using hkept
  · simp only [step, hpushed]
    rcases hkept with ⟨hpos, hpending⟩ | ⟨heof, hlast⟩
    · refine has_of_pushed hpos ?_
      refine h.covered_segment hseg hnear hfits hindex ?_
      exact (covers_cons _ _ _).mpr (Or.inr hpending)
    · obtain ⟨w, hw⟩ := StreamReassembler.push_spec h.wellFormed seg.payload
        index seg.header.fin
      have heof' : (s.receiver.reassembler.push seg.payload index
          seg.header.fin).eof = true := by
        rw [hw.eof_eq, heof, Bool.true_or]
      -- the end of the stream is where it was announced before
      have hafter := (h.step_segment hseg hnear hfits).reassembles.eidx
      have hbefore := h.reassembles.eidx
      simp only [Session.stream, step, hpushed] at hafter hbefore
      refine Or.inr (Or.inr ⟨heof', ?_⟩)
      dsimp only
      rw [hafter heof', ← hbefore heof]
      exact hlast

/-! ## All of the stream -/

/-- When every number that was sent has arrived, all are acknowledged. -/
theorem Receiving.ackno_eq_next (h : s.Receiving capacity o)
    (hall : ∀ n < o.next, s.Has n) : s.receiver.ackno = o.next := by
  by_contra hne
  have hlt : s.receiver.ackno < o.next := lt_of_le_of_ne h.ackno_le hne
  have hnext := hall _ hlt
  have hended : s.receiver.ackno ≠ 0 →
      s.receiver.ackno = s.receiver.reassembler.nidx + 1 := by
    intro hpos
    rcases h.ackno with ⟨hsyn, hackno⟩ | ⟨hzero, -⟩
    · cases hend : s.receiver.streamOut.inputEnded with
      | false => simpa [hend] using hackno
      | true =>
          -- the FIN is acknowledged, and it is the last number
          obtain ⟨heof, hnidx⟩ := h.reassembles.ended.mp hend
          obtain ⟨-, ho⟩ := h.isn_eq hsyn
          rw [hend, Bool.toNat_true] at hackno
          rw [Outgoing.next, ho, h.fin heof, Bool.toNat_true] at hlt
          simp only [Session.stream] at hnidx
          omega
    · exact absurd hzero hpos
  rcases hnext with hfalse | ⟨hpos, hpending⟩ | ⟨heof, hlast⟩
  · exact absurd hfalse (lt_irrefl _)
  · rw [hended (by omega), Nat.add_sub_cancel] at hpending
    exact absurd (h.wellFormed.separated.lt_of_covers hpending) (lt_irrefl _)
  · have hackno := hended (by omega)
    have heidx := h.reassembles.eidx heof
    simp only [Session.stream] at heidx
    have hend : s.receiver.streamOut.inputEnded = true :=
      h.reassembles.ended.mpr ⟨heof, by simp only [Session.stream]; omega⟩
    rcases h.ackno with ⟨-, htrue⟩ | ⟨-, hfalse⟩
    · rw [hend, Bool.toNat_true] at htrue
      omega
    · rw [hend] at hfalse
      cases hfalse

/-- With the FIN acknowledged, the stream has ended. -/
theorem Receiving.inputEnded_of_ackno (h : s.Receiving capacity o)
    (hfin : o.fin = true) (hackno : s.receiver.ackno = o.next) :
    s.receiver.streamOut.inputEnded = true := by
  have hnidx := h.reassembles.nidx_le h.stream
  simp only [Session.stream] at hnidx
  rw [Outgoing.next, Outgoing.syn_of_fin hfin, hfin, Bool.toNat_true] at hackno
  rcases h.ackno with ⟨-, hcount⟩ | ⟨hzero, -⟩
  · by_contra hopen
    rw [Bool.eq_false_of_not_eq_true hopen, Bool.toNat_false] at hcount
    omega
  · omega

/-! ## Segments that bring nothing -/

/-- A segment without sequence numbers changes no acknowledgment. -/
theorem Receiving.ackno_of_empty (h : s.Receiving capacity o)
    (hsynced : s.receiver.synArrived = true → 0 < s.receiver.ackno)
    {seg : TCPSegment} (hempty : seg.lengthInSequenceSpace = 0) :
    (s.receiver.segmentReceived seg).ackno = s.receiver.ackno := by
  rw [TCPSegment.lengthInSequenceSpace_eq] at hempty
  have hpayload : seg.payload = [] := List.length_eq_zero_iff.mp (by omega)
  have hflags : seg.header.syn = false ∧ seg.header.fin = false := by
    cases hsyn : seg.header.syn <;> cases hfin : seg.header.fin <;>
      simp [hsyn, hfin] at hempty ⊢
  rcases s.receiver.segmentReceived_cases seg with
    ⟨-, hdropped⟩ | ⟨index, -, harrived, hpushed⟩
  · rw [hdropped, ackno_noteSyn]
  · have hsyn : s.receiver.synArrived = true := by
      rwa [noteSyn, if_neg (by simp [hflags.1])] at harrived
    rw [hpayload, hflags.2] at hpushed
    obtain ⟨w, hw⟩ := StreamReassembler.push_spec h.wellFormed [] index false
    have hnidx : (s.receiver.reassembler.push [] index false).nidx =
        s.receiver.reassembler.nidx := by
      have hnot := mt (hw.nidx_lt_iff h.wellFormed).mp
        (by simp only [List.length_nil]; omega)
      have hwrites := hw.nidx
      omega
    have hended : (s.receiver.reassembler.push [] index
        false).output.inputEnded = s.receiver.streamOut.inputEnded := by
      have heof := hw.eof_eq
      have heidx := hw.eidx_eq
      rw [Bool.or_false] at heof
      rw [if_neg Bool.false_ne_true] at heidx
      have hle := h.reassembles.nidx_le h.stream
      have hiff := h.reassembles.ended
      have hlast := h.reassembles.eidx
      simp only [Session.stream] at hle hiff hlast
      rw [Bool.eq_iff_iff, hw.inputEnded_iff, heof, heidx, hnidx, streamOut]
      constructor
      · rintro (hold | ⟨htrue, hreached⟩)
        · exact hold
        · have := hlast htrue
          exact hiff.mpr ⟨htrue, by omega⟩
      · exact Or.inl
    rcases h.ackno with ⟨-, hackno⟩ | ⟨hzero, -⟩
    · rw [hpushed, hackno]
      dsimp only
      rw [hnidx, hended]
    · have := hsynced hsyn
      omega

/-- As long as the window is not empty at the start, a noted SYN is
acknowledged. -/
theorem Receiving.synced_segment (h : s.Receiving capacity o)
    (hseg : o.Carries seg) (hnear : Near seg.absSeqno s.receiver.ackno)
    (hroom : 0 < s.receiver.edge)
    (hsynced : s.receiver.synArrived = true → 0 < s.receiver.ackno)
    (hsyn : (s.receiver.segmentReceived seg.toTCPSegment).synArrived = true) :
    0 < (s.receiver.segmentReceived seg.toTCPSegment).ackno := by
  have hmono := h.toValid.ackno_le_step (.segment seg.toTCPSegment)
  simp only [step] at hmono
  cases hold : s.receiver.synArrived with
  | true => exact (hsynced hold).trans_le hmono
  | false =>
      have hflag : seg.header.syn = true := by
        rw [synArrived_segmentReceived, noteSyn] at hsyn
        by_contra hfalse
        rw [if_neg hfalse, hold] at hsyn
        cases hsyn
      have habs := hseg.syn hflag
      have hlen := TCPSegment.lengthInSequenceSpace_eq seg.toTCPSegment
      rw [hflag, Bool.toNat_true] at hlen
      obtain ⟨index, hindex⟩ := h.exists_streamIndex? hseg hnear (Or.inr hflag)
        (by omega) (by omega)
      rw [segmentReceived_of_streamIndex? hindex]
      dsimp only
      omega

end Session
end TCPReceiver
end Sponge
