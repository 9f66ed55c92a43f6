import Sponge.TCPSender.Session

/-!
# What a sender keeps for retransmission

Over every session, the queue of the timer holds the last segments that
`fill_window` made, as they were made.  Their lengths add up to
`bytes_in_flight()`, and the timer runs exactly while there are any; when it
stands still, its timeouts are the initial one.
-/

namespace Sponge

open Support TCPSender

/-! ## Positions in the queue -/

theorem Chain.totalLength {lo hi : ℕ} {q : List (SentSegment × ℕ)}
    (h : Chain lo q hi) : lo + TCPSender.totalLength (q.map Prod.fst) = hi := by
  induction q generalizing lo with
  | nil =>
      obtain rfl : lo = hi := h
      simp
  | cons entry rest ih =>
      obtain ⟨seg, endSeqno⟩ := entry
      obtain ⟨-, -, hend, hrest⟩ := h
      have hih := ih hrest
      simp only [List.map_cons, totalLength_cons]
      omega

/-- Where a segment of the queue starts and ends. -/
theorem Chain.position {lo hi : ℕ} {before after : List (SentSegment × ℕ)}
    {entry : SentSegment × ℕ} (h : Chain lo (before ++ entry :: after) hi) :
    entry.1.absSeqno = lo + TCPSender.totalLength (before.map Prod.fst) ∧
      entry.2 = entry.1.absSeqno + entry.1.lengthInSequenceSpace ∧
      Chain entry.2 after hi := by
  induction before generalizing lo with
  | nil =>
      obtain ⟨habs, -, hend, hrest⟩ := h
      exact ⟨by simp [habs], by rw [hend, habs], hrest⟩
  | cons first before ih =>
      obtain ⟨seg, endSeqno⟩ := first
      obtain ⟨-, -, hend, hrest⟩ := h
      obtain ⟨habs, hentry, hafter⟩ := ih hrest
      refine ⟨?_, hentry, hafter⟩
      simp only [List.map_cons, totalLength_cons]
      omega

namespace Timer

/-! ## The timeouts of a timer that stands still -/

/-- Both timeouts are the initial one. -/
def Reset (t : Timer) : Prop :=
  t.rto = t.baseRto ∧ t.baseRto = t.initialRto

/-- The loop of `ack_handle` resets the timeouts when it empties the queue. -/
theorem ackLoop_reset {t : Timer} (ackno ret : ℕ)
    {q : List (SentSegment × ℕ)} (h : q = [] → t.Reset)
    (hempty : (t.ackLoop ackno ret q).1.outstandings = []) :
    (t.ackLoop ackno ret q).1.Reset := by
  induction q generalizing t ret with
  | nil => exact h rfl
  | cons entry rest ih =>
      obtain ⟨seg, endSeqno⟩ := entry
      rw [ackLoop] at hempty ⊢
      by_cases hstop : ackno < endSeqno
      · rw [if_pos hstop] at hempty
        cases hempty
      · rw [if_neg hstop] at hempty ⊢
        exact ih (ret + seg.lengthInSequenceSpace) (fun _ => ⟨rfl, rfl⟩) hempty

theorem ackHandle_reset {t : Timer} (ackno : ℕ)
    (h : t.outstandings = [] → t.Reset)
    (hempty : (t.ackHandle ackno).1.outstandings = []) :
    (t.ackHandle ackno).1.Reset := by
  have hloop := ackLoop_reset (t := { t with consecutiveRetransmissions := 0 })
    ackno 0 (q := t.outstandings) h
  simp only [ackHandle] at hempty ⊢
  split at hempty <;> simp_all [Reset]

/-- A tick does nothing to a timer that stands still. -/
theorem tickHandle_of_not_running {t : Timer} (ticks : ℕ)
    (windowSize : UInt16) (segmentsOut : List SentSegment)
    (h : t.running = false) :
    (t.tickHandle ticks windowSize segmentsOut).1 = t := by
  simp [tickHandle, h]

end Timer

namespace TCPSender

/-! ## The invariant -/

/-- The queue holds the last of the segments `created`, and a timer that stands
still is reset. -/
structure Retained (created : List SentSegment) (s : TCPSender) : Prop
    extends Valid s where
  original : s.timer.outstandings.map Prod.fst <:+ created
  reset : s.timer.running = false → s.timer.Reset

theorem Retained.reset_of_empty {created : List SentSegment} {s : TCPSender}
    (h : Retained created s) (hempty : s.timer.outstandings = []) :
    s.timer.Reset := by
  refine h.reset ?_
  rw [← Bool.not_eq_true, h.running]
  simp [hempty]

theorem retained_new (capacity : ℕ) (retxTimeout : UInt16)
    (fixedIsn : Option WrappingInt32) (random : UInt32) :
    Retained [] (new capacity retxTimeout fixedIsn random) where
  toValid := valid_new capacity retxTimeout fixedIsn random
  original := List.suffix_refl _
  reset := fun _ => ⟨rfl, rfl⟩

theorem Retained.with_streams {created : List SentSegment} {s : TCPSender}
    (h : Retained created s) (stream : ByteStream)
    (segmentsOut : List SentSegment) :
    Retained created { s with stream := stream, segmentsOut := segmentsOut } :=
  ⟨h.toValid.with_streams stream segmentsOut, h.original, h.reset⟩

theorem Retained.fills {created segs : List SentSegment} {s s' : TCPSender}
    {endSeqno : ℕ} (h : Retained created s)
    (hfills : Fills endSeqno s segs s') : Retained (created ++ segs) s' where
  toValid := (h.toValid.fills hfills).1
  original := by
    obtain ⟨front, hfront⟩ := h.original
    refine ⟨front, ?_⟩
    rw [hfills.outstandings, ← List.append_assoc, hfront]
  reset := by
    refine hfills.invariant
      (I := fun s => s.timer.running = false → s.timer.Reset) ?_ h.reset
    intro s seg s₁ _ _ hemits hrunning
    rw [hemits.running] at hrunning
    cases hrunning

theorem Retained.ackReceived {created : List SentSegment} {s : TCPSender}
    (h : Retained created s) (ackno : WrappingInt32) (windowSize : UInt16) :
    Retained created (s.ackReceived ackno windowSize) := by
  obtain ⟨tmp, htmp⟩ : ∃ tmp, unwrap ackno s.isn s.nextSeqno = tmp :=
    ⟨_, rfl⟩
  have hvalid := h.toValid.ackReceived ackno windowSize
  by_cases hle : tmp ≤ s.nextSeqno
  · have htimer : (s.ackReceived ackno windowSize).timer =
        (s.timer.ackHandle tmp).1 := by
      simp only [TCPSender.ackReceived, htmp]
      rw [if_pos hle]
    obtain ⟨-, -, hsuffix, -⟩ :=
      s.timer.ackHandle_spec tmp h.chain h.running
    refine ⟨hvalid, ?_, ?_⟩
    · rw [htimer]
      exact (hsuffix.map Prod.fst).trans h.original
    · intro hstopped
      have hempty : (s.ackReceived ackno windowSize).timer.outstandings = [] := by
        by_contra hne
        rw [hvalid.running.mpr hne] at hstopped
        cases hstopped
      rw [htimer] at hempty ⊢
      exact Timer.ackHandle_reset tmp h.reset_of_empty hempty
  · have hsame : s.ackReceived ackno windowSize = s := by
      simp only [TCPSender.ackReceived, htmp]
      rw [if_neg hle]
    rw [hsame]
    exact h

theorem Retained.tick {created : List SentSegment} {s : TCPSender}
    (h : Retained created s) (ms : ℕ) : Retained created (s.tick ms) where
  toValid := h.toValid.tick ms
  original := by
    obtain ⟨hqueue, -⟩ :=
      s.timer.tickHandle_spec ms s.windowSize s.segmentsOut
    simp only [TCPSender.tick, hqueue]
    exact h.original
  reset := by
    obtain ⟨-, hrunning, -⟩ :=
      s.timer.tickHandle_spec ms s.windowSize s.segmentsOut
    simp only [TCPSender.tick, hrunning]
    intro hstopped
    rw [Timer.tickHandle_of_not_running ms _ _ hstopped]
    exact h.reset hstopped

/-- An acknowledgment never takes away more than is in flight. -/
theorem Valid.ackHandle_le {s : TCPSender} (h : s.Valid) (ackno : ℕ) :
    (s.timer.ackHandle ackno).2 ≤ s.bytesInFlight := by
  obtain ⟨lo, hchain, -, hret, hlo, -⟩ :=
    s.timer.ackHandle_spec ackno h.chain h.running
  have hbound := hchain.le
  have hflight := h.inFlight_le
  unfold queueStart at hret hlo
  omega

namespace Session

theorem retained_step {s : Session} (h : Retained s.created s.sender)
    (op : Op) : Retained (s.step op).created (s.step op).sender := by
  cases op with
  | write data => exact h.with_streams _ _
  | endInput => exact h.with_streams _ _
  | fillWindow =>
      obtain ⟨segs, hfills, -⟩ := s.sender.fillWindow_spec
      have hretained := h.fills hfills
      simp only [step, hfills.segmentsOut, List.drop_left]
      exact hretained
  | ackReceived ackno windowSize =>
      rw [step_ackReceived]
      exact h.ackReceived ackno windowSize
  | tick ms => exact h.tick ms
  | sendEmptySegment => exact h.with_streams _ _
  | transmit => exact h.with_streams _ _

theorem retained_run (capacity : ℕ) (retxTimeout : UInt16)
    (fixedIsn : Option WrappingInt32) (random : UInt32) (ops : List Op) :
    let s := run capacity retxTimeout fixedIsn random ops
    Retained s.created s.sender :=
  foldl_invariant
    (I := fun s : Session => Retained s.created s.sender)
    (fun _ op hs => retained_step hs op) ops
    (retained_new capacity retxTimeout fixedIsn random)

/-- A segment of the queue is where the history has it. -/
theorem seqno_of_mem_outstandings {s : Session}
    (hsegmented : Segmented s.accepted s.created s.sender)
    (hretained : Retained s.created s.sender)
    {before after : List (SentSegment × ℕ)} {entry : SentSegment × ℕ}
    (hq : s.sender.timer.outstandings = before ++ entry :: after) :
    entry.1.header.seqno = wrap (s.sender.nextSeqno - s.sender.bytesInFlight +
      totalLength (before.map Prod.fst)) s.sender.isn := by
  obtain ⟨front, hfront⟩ := hretained.original
  have hstart : totalLength front =
      s.sender.nextSeqno - s.sender.bytesInFlight := by
    have hchain := hretained.chain.totalLength
    have hnext := hsegmented.next
    rw [← hfront, totalLength_append] at hnext
    unfold queueStart at hchain
    omega
  have hpiece := hsegmented.pieces (front ++ before.map Prod.fst) entry.1
    (after.map Prod.fst) (by rw [← hfront, hq]; simp)
  rw [hpiece.seqno, totalLength_append, hstart]

/-- **The retransmission queue.**  In every run the outstanding segments are the
last ones that `fill_window` made, unmodified.  They follow each other from
`_next_seqno - _bytes_in_flight` to `_next_seqno`, each stored with the number
after its last one; `_bytes_in_flight` is the sum of their lengths, and no
acknowledgment takes more from it.  The timer runs exactly
while there are any, and has the initial timeout while it does not. -/
theorem retransmission_queue (capacity : ℕ) (retxTimeout : UInt16)
    (fixedIsn : Option WrappingInt32) (random : UInt32) (ops : List Op) :
    let s := run capacity retxTimeout fixedIsn random ops
    let queue := s.sender.timer.outstandings
    let start := s.sender.nextSeqno - s.sender.bytesInFlight
    queue.map Prod.fst <:+ s.created ∧
      (∀ before entry after, queue = before ++ entry :: after →
        let first := start + totalLength (before.map Prod.fst)
        entry.1.absSeqno = first ∧
          entry.1.header.seqno = wrap first s.sender.isn ∧
          entry.2 = first + entry.1.lengthInSequenceSpace ∧
          (after = [] → entry.2 = s.sender.nextSeqno)) ∧
      s.sender.bytesInFlight = totalLength (queue.map Prod.fst) ∧
      s.sender.bytesInFlight ≤ s.sender.nextSeqno ∧
      (∀ ackno, (s.sender.timer.ackHandle ackno).2 ≤
        s.sender.bytesInFlight) ∧
      (s.sender.timer.running = true ↔ queue ≠ []) ∧
      (s.sender.timer.running = false →
        s.sender.timer.rto = s.sender.timer.baseRto ∧
          s.sender.timer.baseRto = s.sender.timer.initialRto) := by
  intro s queue start
  have hsegmented : Segmented s.accepted s.created s.sender :=
    segmented_run capacity retxTimeout fixedIsn random ops
  have hretained : Retained s.created s.sender :=
    retained_run capacity retxTimeout fixedIsn random ops
  refine ⟨hretained.original, ?_, ?_, hretained.inFlight_le,
    hretained.toValid.ackHandle_le, hretained.running, hretained.reset⟩
  · intro before entry after hq first
    have hchain : Chain s.sender.queueStart queue s.sender.nextSeqno :=
      hretained.chain
    rw [hq] at hchain
    obtain ⟨habs, hend, hafter⟩ := hchain.position
    refine ⟨habs, seqno_of_mem_outstandings hsegmented hretained hq,
      by rw [hend, habs]; rfl, ?_⟩
    rintro rfl
    exact hafter
  · have hchain : s.sender.queueStart + totalLength (queue.map Prod.fst) =
        s.sender.nextSeqno :=
      hretained.chain.totalLength
    have hle := hretained.inFlight_le
    unfold queueStart at hchain
    omega

end Session
end TCPSender
end Sponge
