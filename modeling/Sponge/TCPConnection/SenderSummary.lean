import Sponge.ByteStream.Accounting
import Sponge.TCPConnection.State
import Sponge.TCPSender.Acknowledged

/-!
# What the summary of a sender says about its past

`state_summary` infers what a sender has done from the relations between four
numbers and the end of the stream.  Over every session without a write after
`end_input` and with fewer than `2 ^ 32` bytes, the summary tells which segments
have been sent and acknowledged.

A segment counts if it occupies sequence numbers.  The empty segments of
`send_empty_segment` go out as well, but the numbers do not show them.
-/

namespace Sponge
namespace TCPSender

open Support

/-! ## The segments that were sent -/

namespace Session

/-- What the operation adds to `segments_out`. -/
def putOut (s : Session) (op : Op) : List SentSegment :=
  (s.step op).sender.segmentsOut.drop s.sender.segmentsOut.length

/-- All that a session has put on `segments_out`: the segments of `fill_window`,
those sent again, and the empty ones. -/
def sent (capacity : ℕ) (retxTimeout : UInt16)
    (fixedIsn : Option WrappingInt32) (random : UInt32) (ops : List Op) :
    List SentSegment :=
  (ops.foldl (observe step fun s out op => out ++ s.putOut op)
    (new capacity retxTimeout fixedIsn random, [])).2

end Session

/-- The segments that occupy sequence numbers. -/
def occupying (segs : List SentSegment) : List SentSegment :=
  segs.filter fun seg => 0 < seg.lengthInSequenceSpace

theorem mem_occupying {segs : List SentSegment} {seg : SentSegment} :
    seg ∈ occupying segs ↔ seg ∈ segs ∧ 0 < seg.lengthInSequenceSpace := by
  simp [occupying]

/-- Apart from empty segments and repetitions, `out` is what `fill_window`
made. -/
structure Issued (created out : List SentSegment) (s : TCPSender) : Prop
    extends Retained created s where
  created_out : ∀ seg ∈ created, seg ∈ out
  out_created : ∀ seg ∈ occupying out, seg ∈ created

variable {created out : List SentSegment} {s s' : TCPSender}

/-- What is put out again, or is empty, was made before. -/
theorem Issued.again (h : Issued created out s) (hs' : Retained created s')
    {segs : List SentSegment} (hsegs : ∀ seg ∈ occupying segs, seg ∈ created) :
    Issued created (out ++ segs) s' where
  toRetained := hs'
  created_out := by
    intro seg hmem
    exact List.mem_append_left _ (h.created_out seg hmem)
  out_created := by
    intro seg hmem
    rw [mem_occupying, List.mem_append] at hmem
    obtain ⟨hold | hnew, hpos⟩ := hmem
    · exact h.out_created seg (mem_occupying.mpr ⟨hold, hpos⟩)
    · exact hsegs seg (mem_occupying.mpr ⟨hnew, hpos⟩)

theorem Issued.fresh (h : Issued created out s) {segs : List SentSegment}
    (hs' : Retained (created ++ segs) s') :
    Issued (created ++ segs) (out ++ segs) s' where
  toRetained := hs'
  created_out := by
    intro seg hmem
    rw [List.mem_append] at hmem ⊢
    exact hmem.imp_left (h.created_out seg)
  out_created := by
    intro seg hmem
    rw [mem_occupying, List.mem_append] at hmem
    obtain ⟨hold | hnew, hpos⟩ := hmem
    · exact List.mem_append_left _
        (h.out_created seg (mem_occupying.mpr ⟨hold, hpos⟩))
    · exact List.mem_append_right _ hnew

namespace Session

theorem issued_step {s : Session} {out : List SentSegment}
    (h : Issued s.created out s.sender) (op : Op) :
    Issued (s.step op).created (out ++ s.putOut op) (s.step op).sender := by
  cases op with
  | write data =>
      refine h.again (h.toRetained.with_streams _ _) ?_
      simp [putOut, step, occupying]
  | endInput =>
      refine h.again (h.toRetained.with_streams _ _) ?_
      simp [putOut, step, occupying]
  | fillWindow => exact h.fresh (retained_step h.toRetained .fillWindow)
  | ackReceived ackno windowSize =>
      obtain ⟨-, -, -, hout, -⟩ :=
        s.sender.ackReceived_unchanged ackno windowSize
      have hnone : s.putOut (.ackReceived ackno windowSize) = [] := by
        rw [putOut, step_ackReceived, hout, List.drop_length]
      rw [hnone, step_ackReceived]
      refine h.again (h.toRetained.ackReceived ackno windowSize) ?_
      simp [occupying]
  | tick ms =>
      obtain ⟨timer, again, heq, -, -, hagain⟩ := s.sender.tick_spec ms
      have hput : s.putOut (.tick ms) = again := by
        simp only [putOut, step, heq, List.drop_left]
      rw [hput]
      refine h.again (h.toRetained.tick ms) ?_
      intro seg hmem
      obtain ⟨entry, hentry, rfl⟩ := hagain seg (mem_occupying.mp hmem).1
      exact h.original.subset (List.mem_map_of_mem hentry)
  | sendEmptySegment =>
      refine h.again (h.toRetained.with_streams _ _) ?_
      simp [putOut, step, sendEmptySegment, occupying,
        TCPSegment.lengthInSequenceSpace_eq]
  | transmit =>
      refine h.again (h.toRetained.with_streams _ _) ?_
      simp [putOut, step, occupying, List.drop_eq_nil_of_le]

theorem issued_run (capacity : ℕ) (retxTimeout : UInt16)
    (fixedIsn : Option WrappingInt32) (random : UInt32) (ops : List Op) :
    let s := run capacity retxTimeout fixedIsn random ops
    Issued s.created (sent capacity retxTimeout fixedIsn random ops) s.sender :=
  observe_invariant
    (I := fun (s : Session) out => Issued s.created out s.sender)
    (fun _ _ op h => issued_step h op) ops
    ⟨retained_new capacity retxTimeout fixedIsn random, by simp [new],
      by simp [occupying]⟩

end Session

/-! ## The bytes that were written -/

/-- What was sent comes out of the bytes `accepted`, and the stream has counted
them. -/
structure Booked (accepted : List UInt8) (s : TCPSender) : Prop where
  sending : ∃ o, s.Sending accepted o
  written : s.stream.bytesWritten = accepted.length % 2 ^ 32

theorem booked_new (capacity : ℕ) (retxTimeout : UInt16)
    (fixedIsn : Option WrappingInt32) (random : UInt32) :
    Booked [] (new capacity retxTimeout fixedIsn random) where
  sending := ⟨_, sending_new capacity retxTimeout fixedIsn random⟩
  written := rfl

/-- Reading from the stream is not counted as writing. -/
theorem bytesWritten_fillLoop (endSeqno fuel : ℕ) (s : TCPSender) :
    (fillLoop endSeqno fuel s).stream.bytesWritten =
      s.stream.bytesWritten := by
  induction fuel generalizing s with
  | zero => rfl
  | succ fuel ih =>
      rw [fillLoop]
      by_cases hcan : s.CanSend endSeqno
      · rw [if_pos hcan, ih, sendSegment_eq hcan.1]
        rfl
      · rw [if_neg hcan]

theorem Booked.write {accepted : List UInt8} (h : Booked accepted s)
    (data : List UInt8) :
    Booked (accepted ++ data.take (s.stream.write data).2)
      { s with stream := (s.stream.write data).1 } where
  sending := by
    obtain ⟨o, ho⟩ := h.sending
    rw [ByteStream.take_write_snd]
    exact ⟨o, ho.write data⟩
  written := by
    have hlength : (data.take (s.stream.write data).2).length =
        (s.stream.write data).2 := by
      rw [ByteStream.take_write_snd, ByteStream.write_snd]
    rw [List.length_append, hlength, ← Nat.mod_add_mod, ← h.written]
    exact s.stream.writeBytes_write data

namespace Session

theorem booked_step {s : Session} (h : Booked s.accepted s.sender) (op : Op) :
    Booked (s.step op).accepted (s.step op).sender := by
  obtain ⟨o, ho⟩ := h.sending
  cases op with
  | write data => exact h.write data
  | endInput =>
      exact ⟨⟨o, ho.with_streams (ByteStream.contents_endInput _) _⟩,
        h.written⟩
  | fillWindow =>
      obtain ⟨segs, hfills, -⟩ := s.sender.fillWindow_spec
      obtain ⟨o', -, ho', -⟩ := ho.fills hfills
      exact ⟨⟨o', ho'⟩, (bytesWritten_fillLoop _ _ _).trans h.written⟩
  | ackReceived ackno windowSize =>
      have hstream := (s.sender.ackReceived_unchanged ackno windowSize).2.1
      have hacked := ho.ackReceived ackno windowSize
      rw [step_ackReceived]
      exact ⟨⟨o, hacked⟩, by rw [hstream, h.written]⟩
  | tick ms => exact ⟨⟨o, ho.tick ms⟩, h.written⟩
  | sendEmptySegment => exact ⟨⟨o, ho.with_streams rfl _⟩, h.written⟩
  | transmit => exact ⟨⟨o, ho.with_streams rfl _⟩, h.written⟩

theorem booked_run (capacity : ℕ) (retxTimeout : UInt16)
    (fixedIsn : Option WrappingInt32) (random : UInt32) (ops : List Op) :
    let s := run capacity retxTimeout fixedIsn random ops
    Booked s.accepted s.sender :=
  foldl_invariant (I := fun s : Session => Booked s.accepted s.sender)
    (fun _ op h => booked_step h op) ops
    (booked_new capacity retxTimeout fixedIsn random)

end Session

/-- The FIN was sent if and only if the stream is at its end and its bytes, the
SYN and one number more were sent. -/
theorem Booked.finSended_iff {accepted : List UInt8} (h : Booked accepted s)
    (hlength : accepted.length < 2 ^ 32) (hdrained : s.Drained) :
    s.finSended = true ↔
      s.stream.eof = true ∧ s.stream.bytesWritten + 2 ≤ s.nextSeqno := by
  obtain ⟨o, ho⟩ := h.sending
  have hwritten := h.written
  rw [Nat.mod_eq_of_lt hlength] at hwritten
  have hbytes : s.stream.eof = true → o.payload.length = accepted.length := by
    intro heof
    have hempty : s.stream.contents = [] := by
      rw [← List.length_eq_zero_iff, ByteStream.length_contents]
      exact (ByteStream.eof_iff.mp heof).2
    rw [← ho.contents, hempty, List.append_nil]
  rw [hwritten, ho.next_eq, Outgoing.next, ho.fin_eq]
  constructor
  · intro hfin
    have heof := hdrained (ho.fin_eq.trans hfin)
    refine ⟨heof, ?_⟩
    rw [hbytes heof, hfin, Outgoing.syn_of_fin hfin, Bool.toNat_true]
    omega
  · rintro ⟨heof, hnumbers⟩
    rw [hbytes heof] at hnumbers
    have hsyn := o.syn.toNat_le
    cases hfin : o.fin with
    | true => rfl
    | false =>
        rw [hfin, Bool.toNat_false] at hnumbers
        omega

/-- The summary, in terms of where the queue starts and whether the FIN was
sent. -/
theorem stateSummary_eq {accepted : List UInt8} (h : Booked accepted s)
    (hlength : accepted.length < 2 ^ 32) (hdrained : s.Drained)
    (herror : s.stream.error = false) :
    s.stateSummary =
      if s.nextSeqno = 0 then .closed
      else if s.queueStart = 0 then .synSent
      else if s.finSended = false then .synAcked
      else if s.queueStart < s.nextSeqno then .finSent
      else .finAcked := by
  obtain ⟨o, ho⟩ := h.sending
  have hle := ho.inFlight_le
  have hfin := h.finSended_iff hlength hdrained
  have hstart : s.nextSeqno = s.bytesInFlight ↔ s.queueStart = 0 := by
    unfold queueStart
    omega
  have hflight : s.bytesInFlight ≠ 0 ↔ s.queueStart < s.nextSeqno := by
    unfold queueStart
    omega
  by_cases hsent : s.finSended = true
  · obtain ⟨heof, hnumbers⟩ := hfin.mp hsent
    simp [stateSummary, herror, hstart, hflight, hsent, heof,
      Nat.not_lt.mpr hnumbers]
  · have hunsent := Bool.eq_false_of_not_eq_true hsent
    cases heof : s.stream.eof with
    | false => simp [stateSummary, herror, hstart, hunsent, heof]
    | true =>
        have hnumbers : s.nextSeqno < s.stream.bytesWritten + 2 :=
          Nat.not_le.mp fun hle => hsent (hfin.mpr ⟨heof, hle⟩)
        simp [stateSummary, herror, hstart, hunsent, heof, hnumbers]

/-! ## What the summary says -/

/-- The SYN was sent, and none of the segments is acknowledged. -/
def NoneAcked (m : ℕ) (segs : List SentSegment) : Prop :=
  (∃ seg ∈ segs, seg.header.syn = true) ∧ ∀ seg ∈ segs, ¬AckedBy m seg

/-- The FIN was sent, and some but not all of the segments are acknowledged. -/
def SomeAcked (m : ℕ) (segs : List SentSegment) : Prop :=
  (∃ seg ∈ segs, seg.header.fin = true) ∧ (∃ seg ∈ segs, AckedBy m seg) ∧
    ∃ seg ∈ segs, ¬AckedBy m seg

/-- The FIN was sent, and all of the segments are acknowledged. -/
def AllAcked (m : ℕ) (segs : List SentSegment) : Prop :=
  (∃ seg ∈ segs, seg.header.fin = true) ∧ ∀ seg ∈ segs, AckedBy m seg

instance (m : ℕ) (segs : List SentSegment) : Decidable (SomeAcked m segs) :=
  inferInstanceAs (Decidable (_ ∧ _ ∧ _))

section Numbers

variable {accepted : List UInt8} {m : ℕ}

theorem Segmented.length_pos (h : Segmented accepted created s)
    {seg : SentSegment} (hmem : seg ∈ created) :
    0 < seg.lengthInSequenceSpace := by
  obtain ⟨before, after, hsplit⟩ := List.append_of_mem hmem
  exact (h.pieces before seg after hsplit).pos

theorem Segmented.exists_syn_iff (h : Segmented accepted created s) :
    (∃ seg ∈ created, seg.header.syn = true) ↔ s.nextSeqno ≠ 0 := by
  rw [Ne, h.nextSeqno_eq_zero_iff]
  constructor
  · rintro ⟨seg, hmem, -⟩
    exact List.ne_nil_of_mem hmem
  · intro hne
    obtain ⟨seg, rest, rfl⟩ := List.exists_cons_of_ne_nil hne
    exact ⟨seg, List.mem_cons_self, (h.pieces [] seg rest rfl).syn_iff.mpr rfl⟩

theorem Tracked.exists_fin_iff (h : Tracked created s m)
    (hsegmented : Segmented accepted created s) :
    (∃ seg ∈ created, seg.header.fin = true) ↔ s.finSended = true :=
  ⟨hsegmented.fin, h.fin⟩

theorem Issued.mem_occupying_iff (h : Issued created out s)
    (hsegmented : Segmented accepted created s) {seg : SentSegment} :
    seg ∈ occupying out ↔ seg ∈ created := by
  refine ⟨h.out_created seg, fun hmem => ?_⟩
  exact mem_occupying.mpr ⟨h.created_out seg hmem, hsegmented.length_pos hmem⟩

theorem Issued.occupying_eq_nil_iff (h : Issued created out s)
    (hsegmented : Segmented accepted created s) :
    occupying out = [] ↔ s.nextSeqno = 0 := by
  rw [hsegmented.nextSeqno_eq_zero_iff, List.eq_nil_iff_forall_not_mem,
    List.eq_nil_iff_forall_not_mem]
  simp only [h.mem_occupying_iff hsegmented]

/-- Nothing is acknowledged while the queue starts with the SYN. -/
theorem Issued.noneAcked_iff (h : Issued created out s)
    (hsegmented : Segmented accepted created s)
    (htracked : Tracked created s m) :
    NoneAcked m (occupying out) ↔ s.nextSeqno ≠ 0 ∧ s.queueStart = 0 := by
  have hacked :=
    htracked.exists_acked_iff fun _ hmem => hsegmented.length_pos hmem
  simp only [NoneAcked, h.mem_occupying_iff hsegmented]
  rw [hsegmented.exists_syn_iff, ← Nat.le_zero, ← Nat.not_lt, ← hacked]
  simp

theorem Issued.someAcked_iff (h : Issued created out s)
    (hsegmented : Segmented accepted created s)
    (htracked : Tracked created s m) :
    SomeAcked m (occupying out) ↔ s.finSended = true ∧ 0 < s.queueStart ∧
      s.queueStart < s.nextSeqno := by
  simp only [SomeAcked, h.mem_occupying_iff hsegmented]
  rw [htracked.exists_fin_iff hsegmented, htracked.exists_not_acked_iff,
    htracked.exists_acked_iff fun _ hmem => hsegmented.length_pos hmem]

/-- Everything is acknowledged when the queue is empty. -/
theorem Issued.allAcked_iff (h : Issued created out s)
    (hsegmented : Segmented accepted created s)
    (htracked : Tracked created s m) :
    AllAcked m (occupying out) ↔
      s.finSended = true ∧ ¬s.queueStart < s.nextSeqno := by
  simp only [AllAcked, h.mem_occupying_iff hsegmented]
  rw [htracked.exists_fin_iff hsegmented, ← htracked.exists_not_acked_iff]
  simp

end Numbers

namespace Session

/-- **The summary of a sender.**  In every session without a write after
`end_input`, with fewer than `2 ^ 32` bytes written and the stream not in error,
the summary of the sender is CLOSED if and only if no segment that occupies
sequence numbers was sent, SYN_SENT if and only if the SYN was sent and none of
these segments is acknowledged, FIN_SENT if and only if the FIN was sent and
some but not all of them are, FIN_ACKED if and only if it was and all of them
are, and SYN_ACKED in every other case. -/
theorem stateSummary_faithful (capacity : ℕ) (retxTimeout : UInt16)
    (fixedIsn : Option WrappingInt32) (random : UInt32) {ops : List Op}
    (hops : EveryStep step (new capacity retxTimeout fixedIsn random) ops
      NoLateWrite)
    (hlength :
      (run capacity retxTimeout fixedIsn random ops).accepted.length < 2 ^ 32)
    (herror :
      (run capacity retxTimeout fixedIsn random ops).sender.stream.error =
        false) :
    let summary :=
      (run capacity retxTimeout fixedIsn random ops).sender.stateSummary
    let segs := occupying (sent capacity retxTimeout fixedIsn random ops)
    let m := highest capacity retxTimeout fixedIsn random ops
    (summary = .closed ↔ segs = []) ∧
      (summary = .synSent ↔ NoneAcked m segs) ∧
      (summary = .finSent ↔ SomeAcked m segs) ∧
      (summary = .finAcked ↔ AllAcked m segs) ∧
      (summary = .synAcked ↔
        segs ≠ [] ∧ ¬NoneAcked m segs ∧ ¬SomeAcked m segs ∧
          ¬AllAcked m segs) := by
  intro summary segs m
  have hsegmented := segmented_run capacity retxTimeout fixedIsn random ops
  have htracked := tracked_run capacity retxTimeout fixedIsn random ops
  have hissued := issued_run capacity retxTimeout fixedIsn random ops
  have hbooked := booked_run capacity retxTimeout fixedIsn random ops
  have hdrained := drained_run capacity retxTimeout fixedIsn random hops
  have hsyn := finAfterSyn_run capacity retxTimeout fixedIsn random ops
  have hsummary : summary = _ :=
    stateSummary_eq hbooked hlength hdrained herror
  rw [hsummary, Ne, hissued.occupying_eq_nil_iff hsegmented,
    hissued.noneAcked_iff hsegmented htracked,
    hissued.someAcked_iff hsegmented htracked,
    hissued.allAcked_iff hsegmented htracked]
  split_ifs with hzero hstart hfin hflight
  · have hunsent := mt hsyn (Nat.not_lt.mpr hzero.le)
    simp [hzero, hunsent]
  · simp [hzero, hstart, Nat.pos_of_ne_zero hzero]
  · simp [hzero, hstart, hfin]
  · simp [hzero, hstart, hfin, hflight, Nat.pos_of_ne_zero hstart]
  · simp [hzero, hstart, hfin, hflight]

/-- The SYN, two bytes and the FIN, of which the FIN is not acknowledged. -/
def closing : List Op :=
  [.fillWindow, .ackReceived ⟨1⟩ 10, .write [1, 2], .fillWindow, .endInput,
    .fillWindow, .ackReceived ⟨3⟩ 10]

theorem stateSummary_closing :
    let segs := occupying (sent 10 1000 (some ⟨0⟩) 0 closing)
    segs.length = 3 ∧ SomeAcked (highest 10 1000 (some ⟨0⟩) 0 closing) segs ∧
      (run 10 1000 (some ⟨0⟩) 0 closing).sender.stateSummary = .finSent := by
  intro segs
  have hops : EveryStep step (new 10 1000 (some ⟨0⟩) 0) closing
      NoLateWrite := by
    decide +kernel
  obtain ⟨-, -, hfinSent, -⟩ := stateSummary_faithful 10 1000 (some ⟨0⟩) 0 hops
    (by decide +kernel) (by decide +kernel)
  have hsome : SomeAcked (highest 10 1000 (some ⟨0⟩) 0 closing) segs := by
    decide +kernel
  exact ⟨by decide +kernel, hsome, hfinSent.mpr hsome⟩

/-- An empty segment is sent before the SYN: the summary is CLOSED all the
same. -/
theorem stateSummary_empty_segment :
    let ops : List Op := [.sendEmptySegment]
    let s := run 10 1000 (some ⟨0⟩) 0 ops
    EveryStep step (new 10 1000 (some ⟨0⟩) 0) ops NoLateWrite ∧
      s.accepted.length < 2 ^ 32 ∧ s.sender.stream.error = false ∧
      sent 10 1000 (some ⟨0⟩) 0 ops ≠ [] ∧
      s.sender.segmentsOut ≠ [] ∧ s.sender.stateSummary = .closed := by
  decide +kernel

end Session
end TCPSender
end Sponge
