import Sponge.TCPSender.StaleAck

/-!
# Which segments have been acknowledged

The queue of outstanding segments holds exactly the segments of the history that
the largest accepted acknowledgment does not cover, however the acknowledgments
came in.  So `bytes_in_flight` tells whether any of the segments has been
acknowledged and whether all of them have.
-/

namespace Sponge
namespace TCPSender

open Support

/-- The number `m` acknowledges the whole segment. -/
def AckedBy (m : ℕ) (seg : SentSegment) : Prop :=
  seg.absSeqno + seg.lengthInSequenceSpace ≤ m

instance (m : ℕ) (seg : SentSegment) : Decidable (AckedBy m seg) :=
  inferInstanceAs (Decidable (_ ≤ _))

/-- The segments `created` take all sequence numbers that were used; each of
them lies before the queue of outstanding segments or is in it, and `m`
acknowledges what lies before the queue. -/
structure Tracked (created : List SentSegment) (s : TCPSender) (m : ℕ) : Prop
    extends AckedTo s m where
  start_le : s.queueStart ≤ m
  place : ∀ seg ∈ created,
    seg.absSeqno + seg.lengthInSequenceSpace ≤ s.queueStart ∨
      (seg, seg.absSeqno + seg.lengthInSequenceSpace) ∈ s.timer.outstandings
  cover : ∀ n < s.nextSeqno, ∃ seg ∈ created,
    seg.absSeqno ≤ n ∧ n < seg.absSeqno + seg.lengthInSequenceSpace
  fin : s.finSended = true → ∃ seg ∈ created, seg.header.fin = true

variable {created : List SentSegment} {s s' : TCPSender} {m : ℕ}

theorem tracked_new (capacity : ℕ) (retxTimeout : UInt16)
    (fixedIsn : Option WrappingInt32) (random : UInt32) :
    Tracked [] (new capacity retxTimeout fixedIsn random) 0 where
  toAckedTo := ackedTo_new capacity retxTimeout fixedIsn random
  start_le := le_rfl
  place := by
    intro seg hmem
    cases hmem
  cover := by
    intro n hn
    exact absurd hn (Nat.not_lt_zero n)
  fin := by
    intro hfin
    cases hfin

/-! ## Steps -/

/-- What leaves the queue and the numbers alone keeps track. -/
theorem Tracked.congr (h : Tracked created s m) (hacked : s'.AckedTo m)
    (hstart : s'.queueStart = s.queueStart)
    (hnext : s'.nextSeqno = s.nextSeqno)
    (hqueue : s'.timer.outstandings = s.timer.outstandings)
    (hfin : s'.finSended = s.finSended) : Tracked created s' m where
  toAckedTo := hacked
  start_le := hstart ▸ h.start_le
  place := by
    rw [hstart, hqueue]
    exact h.place
  cover := by
    rw [hnext]
    exact h.cover
  fin := by
    rw [hfin]
    exact h.fin

theorem Tracked.emits {endSeqno : ℕ} {seg : SentSegment}
    (h : Tracked created s m) (hemits : Emits endSeqno s seg s') :
    Tracked (created ++ [seg]) s' m where
  toAckedTo := h.toAckedTo.emits hemits
  start_le := by
    rw [h.toValid.queueStart_emits hemits]
    exact h.start_le
  place := by
    intro other hmem
    rw [h.toValid.queueStart_emits hemits, hemits.outstandings,
      List.mem_append]
    rcases List.mem_append.mp hmem with hold | hnew
    · exact (h.place other hold).imp_right Or.inl
    · rw [List.mem_singleton] at hnew
      subst hnew
      rw [hemits.absSeqno, ← hemits.nextSeqno]
      exact Or.inr (Or.inr (List.mem_singleton_self _))
  cover := by
    intro n hn
    rw [hemits.nextSeqno] at hn
    rcases Nat.lt_or_ge n s.nextSeqno with hold | hnew
    · obtain ⟨other, hmem, hother⟩ := h.cover n hold
      exact ⟨other, List.mem_append_left _ hmem, hother⟩
    · refine ⟨seg, List.mem_append_right _ (List.mem_singleton_self _), ?_⟩
      rw [hemits.absSeqno]
      exact ⟨hnew, hn⟩
  fin := by
    intro hfin
    refine ⟨seg, List.mem_append_right _ (List.mem_singleton_self _), ?_⟩
    rw [hemits.header]
    exact hfin

theorem Tracked.fills {endSeqno : ℕ} {segs : List SentSegment}
    (h : Tracked created s m) (hfills : Fills endSeqno s segs s') :
    Tracked (created ++ segs) s' m := by
  induction hfills generalizing created with
  | nil =>
      rw [List.append_nil]
      exact h
  | @cons _ _ _ seg segs _ hemits _ ih =>
      have hrest := ih (h.emits hemits)
      rwa [List.append_assoc, List.singleton_append] at hrest

/-- An accepted acknowledgment takes the segments from the queue that it
covers. -/
theorem Tracked.ackReceived (h : Tracked created s m) {ackno : WrappingInt32}
    {tmp : ℕ} (htmp : unwrap ackno s.isn s.nextSeqno = tmp)
    (hle : tmp ≤ s.nextSeqno) (windowSize : UInt16) :
    Tracked created (s.ackReceived ackno windowSize) (max m tmp) := by
  have hacked := h.toAckedTo.ackReceived htmp hle windowSize
  rcases h.toValid.ackReceived_cases ackno windowSize htmp with
    ⟨hlt, -⟩ | ⟨-, timer, flight, heq, hvalid, hsuffix, hflight, hmax⟩
  · exact absurd hle (Nat.not_le.mpr hlt)
  · rw [heq] at hacked hvalid ⊢
    have hstart : s.queueStart ≤ s.nextSeqno - flight := by
      rw [queueStart]
      omega
    refine ⟨hacked, ?_, ?_, h.cover, h.fin⟩
    · exact hmax.trans (max_le_max_right tmp h.start_le)
    · intro seg hmem
      rcases h.place seg hmem with hbefore | hqueued
      · exact Or.inl (hbefore.trans hstart)
      · -- the segment is left in the queue, or in the part that was removed
        obtain ⟨removed, hremoved⟩ := hsuffix
        have hchain := h.chain
        rw [← hremoved] at hchain hqueued
        obtain ⟨mid, hfront, hback⟩ := hchain.of_append
        have hmid : mid = s.nextSeqno - flight :=
          hback.start_unique hvalid.chain
        rcases List.mem_append.mp hqueued with hgone | hleft
        · exact Or.inl ((hfront.bounds hgone).2.1.trans hmid.le)
        · exact Or.inr hleft

/-! ## What is acknowledged -/

/-- A segment is acknowledged if and only if it lies before the queue. -/
theorem Tracked.ackedBy_iff (h : Tracked created s m) {seg : SentSegment}
    (hmem : seg ∈ created) :
    AckedBy m seg ↔
      seg.absSeqno + seg.lengthInSequenceSpace ≤ s.queueStart := by
  constructor
  · intro hacked
    rcases h.place seg hmem with hbefore | hqueued
    · exact hbefore
    · exact absurd hacked (Nat.not_le.mpr (h.uncovered _ hqueued))
  · intro hbefore
    exact hbefore.trans h.start_le

theorem Tracked.exists_acked_iff (h : Tracked created s m)
    (hpos : ∀ seg ∈ created, 0 < seg.lengthInSequenceSpace) :
    (∃ seg ∈ created, AckedBy m seg) ↔ 0 < s.queueStart := by
  constructor
  · rintro ⟨seg, hmem, hacked⟩
    have hlength := hpos seg hmem
    have hbefore := (h.ackedBy_iff hmem).mp hacked
    omega
  · intro hstart
    -- the segment with the last number before the queue
    have hle := h.chain.le
    obtain ⟨seg, hmem, hlow, -⟩ := h.cover (s.queueStart - 1) (by omega)
    refine ⟨seg, hmem, (h.ackedBy_iff hmem).mpr ?_⟩
    rcases h.place seg hmem with hbefore | hqueued
    · exact hbefore
    · have hbound := (h.chain.bounds hqueued).1
      dsimp only at hbound
      omega

theorem Tracked.exists_not_acked_iff (h : Tracked created s m) :
    (∃ seg ∈ created, ¬AckedBy m seg) ↔ s.queueStart < s.nextSeqno := by
  constructor
  · rintro ⟨seg, hmem, hnot⟩
    rw [h.ackedBy_iff hmem] at hnot
    rcases h.place seg hmem with hbefore | hqueued
    · exact absurd hbefore hnot
    · have hend := (h.chain.bounds hqueued).2.1
      dsimp only at hend
      omega
  · intro hlt
    obtain ⟨seg, hmem, -, hhigh⟩ := h.cover s.queueStart hlt
    refine ⟨seg, hmem, ?_⟩
    rw [h.ackedBy_iff hmem]
    exact Nat.not_le.mpr hhigh

/-! ## Whole runs -/

namespace Session

theorem tracked_step {s : Session} {m : ℕ}
    (h : Tracked s.created s.sender m) (op : Op) :
    Tracked (s.step op).created (s.step op).sender (highestAck s m op) := by
  cases op with
  | write data =>
      exact h.congr (ackedTo_step h.toAckedTo (.write data)) rfl rfl rfl rfl
  | endInput =>
      exact h.congr (ackedTo_step h.toAckedTo .endInput) rfl rfl rfl rfl
  | fillWindow =>
      obtain ⟨segs, hfills, -⟩ := s.sender.fillWindow_spec
      have hsegs : s.sender.fillWindow.segmentsOut.drop
          s.sender.segmentsOut.length = segs := by
        rw [hfills.segmentsOut, List.drop_left]
      simp only [step, hsegs]
      exact h.fills hfills
  | ackReceived ackno windowSize =>
      rw [step_ackReceived]
      rcases highestAck_cases s m ackno windowSize with
        ⟨tmp, htmp, hle, hmax⟩ | ⟨hsame, hmax⟩
      · rw [hmax]
        exact h.ackReceived htmp hle windowSize
      · rw [hmax, hsame]
        exact h
  | tick ms =>
      obtain ⟨hqueue, -⟩ := s.sender.timer.tickHandle_spec ms
        s.sender.windowSize s.sender.segmentsOut
      exact h.congr (ackedTo_step h.toAckedTo (.tick ms)) rfl rfl hqueue rfl
  | sendEmptySegment =>
      exact h.congr (ackedTo_step h.toAckedTo .sendEmptySegment) rfl rfl rfl
        rfl
  | transmit =>
      exact h.congr (ackedTo_step h.toAckedTo .transmit) rfl rfl rfl rfl

theorem tracked_run (capacity : ℕ) (retxTimeout : UInt16)
    (fixedIsn : Option WrappingInt32) (random : UInt32) (ops : List Op) :
    let s := run capacity retxTimeout fixedIsn random ops
    Tracked s.created s.sender
      (highest capacity retxTimeout fixedIsn random ops) :=
  observe_invariant (I := fun (s : Session) m => Tracked s.created s.sender m)
    (fun _ _ op h => tracked_step h op) ops
    (tracked_new capacity retxTimeout fixedIsn random)

end Session
end TCPSender
end Sponge
