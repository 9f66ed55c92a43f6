import Sponge.TCPSender.Model

/-!
# The queue of outstanding segments

The outstanding segments cover a contiguous range of sequence numbers, from the
first one not acknowledged as a whole segment to the next one to be sent.  An
acknowledgment removes the segments it covers completely and leaves the rest of
the range.
-/

namespace Sponge

/-- The queue holds nonempty segments that cover the sequence numbers from `lo`
to `hi` one after the other, each with the number after its last one. -/
def Chain (lo : ℕ) : List (SentSegment × ℕ) → ℕ → Prop
  | [], hi => lo = hi
  | (seg, endSeqno) :: rest, hi =>
      seg.absSeqno = lo ∧ 0 < seg.lengthInSequenceSpace ∧
        endSeqno = lo + seg.lengthInSequenceSpace ∧ Chain endSeqno rest hi

theorem Chain.le {lo hi : ℕ} {q : List (SentSegment × ℕ)}
    (h : Chain lo q hi) : lo ≤ hi := by
  induction q generalizing lo with
  | nil => exact le_of_eq h
  | cons entry rest ih =>
      obtain ⟨seg, endSeqno⟩ := entry
      obtain ⟨-, -, hend, hrest⟩ := h
      have := ih hrest
      omega

/-- The queue is empty exactly when the range is. -/
theorem Chain.eq_nil_iff {lo hi : ℕ} {q : List (SentSegment × ℕ)}
    (h : Chain lo q hi) : q = [] ↔ lo = hi := by
  cases q with
  | nil => exact ⟨fun _ => h, fun _ => rfl⟩
  | cons entry rest =>
      obtain ⟨seg, endSeqno⟩ := entry
      obtain ⟨-, hpos, hend, hrest⟩ := h
      have := hrest.le
      constructor
      · intro hnil
        cases hnil
      · intro heq
        omega

theorem Chain.append {lo hi : ℕ} {q : List (SentSegment × ℕ)}
    (h : Chain lo q hi) {seg : SentSegment} (hseg : seg.absSeqno = hi)
    (hpos : 0 < seg.lengthInSequenceSpace) :
    Chain lo (q ++ [(seg, hi + seg.lengthInSequenceSpace)])
      (hi + seg.lengthInSequenceSpace) := by
  induction q generalizing lo with
  | nil =>
      obtain rfl : lo = hi := h
      exact ⟨hseg, hpos, rfl, rfl⟩
  | cons entry rest ih =>
      obtain ⟨first, endSeqno⟩ := entry
      obtain ⟨habs, hfirst, hend, hrest⟩ := h
      exact ⟨habs, hfirst, hend, ih hrest⟩

/-- Every segment of the queue ends after its start. -/
theorem Chain.lt_end {lo hi : ℕ} {q : List (SentSegment × ℕ)}
    (h : Chain lo q hi) {entry : SentSegment × ℕ} (hmem : entry ∈ q) :
    lo < entry.2 := by
  induction q generalizing lo with
  | nil => simp at hmem
  | cons first rest ih =>
      obtain ⟨seg, endSeqno⟩ := first
      obtain ⟨-, hpos, hend, hrest⟩ := h
      rcases List.mem_cons.mp hmem with rfl | hmem
      · dsimp only
        omega
      · have := ih hrest hmem
        omega

/-- Every segment of the queue lies in the range, and is kept with the number
after its last one. -/
theorem Chain.bounds {lo hi : ℕ} {q : List (SentSegment × ℕ)}
    (h : Chain lo q hi) {entry : SentSegment × ℕ} (hmem : entry ∈ q) :
    lo ≤ entry.1.absSeqno ∧ entry.2 ≤ hi ∧
      entry.2 = entry.1.absSeqno + entry.1.lengthInSequenceSpace := by
  induction q generalizing lo with
  | nil => simp at hmem
  | cons first rest ih =>
      obtain ⟨seg, endSeqno⟩ := first
      obtain ⟨habs, -, hend, hrest⟩ := h
      rcases List.mem_cons.mp hmem with rfl | hmem
      · have := hrest.le
        refine ⟨?_, ?_, ?_⟩ <;> dsimp only <;> omega
      · obtain ⟨hlo, hhi, heq⟩ := ih hrest hmem
        exact ⟨by omega, hhi, heq⟩

/-- The queue determines where its range starts. -/
theorem Chain.start_unique {lo lo' hi : ℕ} {q : List (SentSegment × ℕ)}
    (h : Chain lo q hi) (h' : Chain lo' q hi) : lo = lo' := by
  cases q with
  | nil =>
      have heq : lo = hi := h
      exact heq.trans (Eq.symm h')
  | cons entry rest => exact h.1.symm.trans h'.1

theorem Chain.of_append {lo hi : ℕ} {q q' : List (SentSegment × ℕ)}
    (h : Chain lo (q ++ q') hi) : ∃ mid, Chain lo q mid ∧ Chain mid q' hi := by
  induction q generalizing lo with
  | nil => exact ⟨lo, rfl, h⟩
  | cons entry rest ih =>
      obtain ⟨seg, endSeqno⟩ := entry
      obtain ⟨habs, hpos, hend, hrest⟩ := h
      obtain ⟨mid, hfront, hback⟩ := ih hrest
      exact ⟨mid, ⟨habs, hpos, hend, hfront⟩, hback⟩

/-- Every number of the range belongs to a segment of the queue. -/
theorem Chain.exists_mem {lo hi n : ℕ} {q : List (SentSegment × ℕ)}
    (h : Chain lo q hi) (hlo : lo ≤ n) (hhi : n < hi) :
    ∃ entry ∈ q, entry.1.absSeqno ≤ n ∧
      n < entry.1.absSeqno + entry.1.lengthInSequenceSpace := by
  induction q generalizing lo with
  | nil =>
      have heq : lo = hi := h
      omega
  | cons entry rest ih =>
      obtain ⟨seg, endSeqno⟩ := entry
      obtain ⟨habs, -, hend, hrest⟩ := h
      rcases Nat.lt_or_ge n endSeqno with hlt | hge
      · exact ⟨(seg, endSeqno), by simp, by dsimp only; omega,
          by dsimp only; omega⟩
      · obtain ⟨found, hmem, hfound⟩ := ih hrest hge
        exact ⟨found, by simp [hmem], hfound⟩

namespace Timer

/-! ## Acknowledgments -/

/-- What the loop of `ack_handle` leaves: the part of the queue from `lo'` on,
which lies at or before `ackno` if anything was removed. -/
theorem ackLoop_spec (t : Timer) (ackno ret : ℕ) {lo hi : ℕ}
    {q : List (SentSegment × ℕ)} (hq : Chain lo q hi) :
    ∃ lo', Chain lo' (t.ackLoop ackno ret q).1.outstandings hi ∧
      (t.ackLoop ackno ret q).1.outstandings <:+ q ∧
      (t.ackLoop ackno ret q).2 = ret + (lo' - lo) ∧
      lo ≤ lo' ∧ lo' ≤ max lo ackno ∧
      (t.ackLoop ackno ret q).1.running = t.running := by
  induction q generalizing t ret lo with
  | nil =>
      obtain rfl : lo = hi := hq
      exact ⟨lo, rfl, List.suffix_refl _, by simp [ackLoop], le_rfl,
        le_max_left _ _, rfl⟩
  | cons entry rest ih =>
      obtain ⟨seg, endSeqno⟩ := entry
      rw [ackLoop]
      by_cases hstop : ackno < endSeqno
      · rw [if_pos hstop]
        exact ⟨lo, hq, List.suffix_refl _, by simp, le_rfl, le_max_left _ _,
          rfl⟩
      · rw [if_neg hstop]
        obtain ⟨-, -, hend, hrest⟩ := hq
        obtain ⟨lo', hchain, hsuffix, hret, hle, hmax, hrunning⟩ :=
          ih { t with rto := t.initialRto, baseRto := t.initialRto }
            (ret + seg.lengthInSequenceSpace) hrest
        exact ⟨lo', hchain, hsuffix.trans (List.suffix_cons _ _), by omega,
          by omega, by omega, hrunning⟩

/-- The same for the whole of `ack_handle`, which also stops the timer when the
queue is empty. -/
theorem ackHandle_spec (t : Timer) (ackno : ℕ) {lo hi : ℕ}
    (hq : Chain lo t.outstandings hi)
    (hrunning : t.running = true ↔ t.outstandings ≠ []) :
    ∃ lo', Chain lo' (t.ackHandle ackno).1.outstandings hi ∧
      (t.ackHandle ackno).1.outstandings <:+ t.outstandings ∧
      (t.ackHandle ackno).2 = lo' - lo ∧ lo ≤ lo' ∧ lo' ≤ max lo ackno ∧
      ((t.ackHandle ackno).1.running = true ↔
        (t.ackHandle ackno).1.outstandings ≠ []) := by
  obtain ⟨lo', hchain, hsuffix, hret, hle, hmax, hsame⟩ :=
    ackLoop_spec { t with consecutiveRetransmissions := 0 } ackno 0 hq
  simp only [ackHandle]
  generalize { t with consecutiveRetransmissions := 0 }.ackLoop ackno 0
    t.outstandings = result at *
  refine ⟨lo', ?_, ?_, by omega, hle, hmax, ?_⟩
  · split <;> exact hchain
  · split <;> exact hsuffix
  · split
    · rename_i hnil
      simp [hnil]
    · rename_i hne
      have hwas : t.outstandings ≠ [] := by
        intro hnil
        rw [hnil] at hsuffix
        exact hne (List.suffix_nil.mp hsuffix)
      simp [hsame, hrunning, hwas, hne]

/-- The acknowledgment covers no segment of the queue. -/
def Uncovered (q : List (SentSegment × ℕ)) (ackno : ℕ) : Prop :=
  ∀ entry ∈ q, ackno < entry.2

instance (q : List (SentSegment × ℕ)) (ackno : ℕ) :
    Decidable (Uncovered q ackno) :=
  inferInstanceAs (Decidable (∀ entry ∈ q, ackno < entry.2))

theorem uncovered_of_first {ackno endSeqno lo hi : ℕ} {seg : SentSegment}
    {rest : List (SentSegment × ℕ)}
    (hq : Chain lo ((seg, endSeqno) :: rest) hi) (hlt : ackno < endSeqno) :
    Uncovered ((seg, endSeqno) :: rest) ackno := by
  obtain ⟨-, -, -, hrest⟩ := hq
  intro entry hmem
  rcases List.mem_cons.mp hmem with rfl | hmem
  · exact hlt
  · exact hlt.trans (hrest.lt_end hmem)

/-- What the loop leaves in the queue is not covered. -/
theorem ackLoop_uncovered (t : Timer) (ackno ret : ℕ) {lo hi : ℕ}
    {q : List (SentSegment × ℕ)} (hq : Chain lo q hi) :
    Uncovered (t.ackLoop ackno ret q).1.outstandings ackno := by
  induction q generalizing t ret lo with
  | nil => simp [ackLoop, Uncovered]
  | cons entry rest ih =>
      obtain ⟨seg, endSeqno⟩ := entry
      rw [ackLoop]
      by_cases hstop : ackno < endSeqno
      · rw [if_pos hstop]
        exact uncovered_of_first hq hstop
      · obtain ⟨-, -, -, hrest⟩ := hq
        rw [if_neg hstop]
        exact ih _ _ hrest

theorem ackHandle_uncovered (t : Timer) (ackno : ℕ) {lo hi : ℕ}
    (hq : Chain lo t.outstandings hi) :
    Uncovered (t.ackHandle ackno).1.outstandings ackno := by
  have hloop := ackLoop_uncovered { t with consecutiveRetransmissions := 0 }
    ackno 0 hq
  simp only [ackHandle]
  split <;> exact hloop

/-- An acknowledgment that covers nothing only clears the retransmission
count. -/
theorem ackHandle_of_uncovered {t : Timer} {ackno : ℕ}
    (h : Uncovered t.outstandings ackno)
    (hrunning : t.running = true ↔ t.outstandings ≠ []) :
    t.ackHandle ackno = ({ t with consecutiveRetransmissions := 0 }, 0) := by
  obtain ⟨running, rto, baseRto, initialRto, count, outstandings⟩ := t
  cases outstandings with
  | nil =>
      have hstill : running = false := by simpa using hrunning
      simp [ackHandle, ackLoop, hstill]
  | cons entry rest =>
      obtain ⟨seg, endSeqno⟩ := entry
      have hfirst : ackno < endSeqno := h (seg, endSeqno) (by simp)
      simp [ackHandle, ackLoop, hfirst]

/-- The loop resets the base timeout as soon as it removes a segment. -/
theorem ackLoop_baseRto (t : Timer) (ackno ret : ℕ) {lo hi : ℕ}
    {q : List (SentSegment × ℕ)} (hq : Chain lo q hi) :
    (t.ackLoop ackno ret q).1.initialRto = t.initialRto ∧
      (t.ackLoop ackno ret q).1.consecutiveRetransmissions =
        t.consecutiveRetransmissions ∧
      (¬Uncovered q ackno ∨ t.baseRto = t.initialRto →
        (t.ackLoop ackno ret q).1.baseRto = t.initialRto) := by
  induction q generalizing t ret lo with
  | nil => simp [ackLoop, Uncovered]
  | cons entry rest ih =>
      obtain ⟨seg, endSeqno⟩ := entry
      rw [ackLoop]
      by_cases hstop : ackno < endSeqno
      · rw [if_pos hstop]
        refine ⟨rfl, rfl, ?_⟩
        rintro (hcovered | hbase)
        · exact absurd (uncovered_of_first hq hstop) hcovered
        · exact hbase
      · obtain ⟨-, -, -, hrest⟩ := hq
        rw [if_neg hstop]
        obtain ⟨hinitial, hcount, hbase⟩ :=
          ih { t with rto := t.initialRto, baseRto := t.initialRto }
            (ret + seg.lengthInSequenceSpace) hrest
        exact ⟨hinitial, hcount, fun _ => hbase (Or.inr rfl)⟩

theorem ackHandle_counters (t : Timer) (ackno : ℕ) {lo hi : ℕ}
    (hq : Chain lo t.outstandings hi) :
    (t.ackHandle ackno).1.initialRto = t.initialRto ∧
      (t.ackHandle ackno).1.consecutiveRetransmissions = 0 ∧
      (¬Uncovered t.outstandings ackno →
        (t.ackHandle ackno).1.baseRto = t.initialRto) := by
  obtain ⟨hinitial, hcount, hbase⟩ :=
    ackLoop_baseRto { t with consecutiveRetransmissions := 0 } ackno 0 hq
  simp only [ackHandle]
  split <;> exact ⟨hinitial, hcount, fun h => hbase (Or.inl h)⟩

/-! ## Expiry -/

/-- The tick is the one at which the timer expires. -/
def Expires (t : Timer) (ticks : ℕ) : Prop :=
  t.running = true ∧ t.rto ≤ ticks

instance (t : Timer) (ticks : ℕ) : Decidable (t.Expires ticks) :=
  inferInstanceAs (Decidable (t.running = true ∧ t.rto ≤ ticks))

/-- A tick changes neither the queue nor whether the timer runs, and at most
sends an outstanding segment again. -/
theorem tickHandle_spec (t : Timer) (ticks : ℕ) (windowSize : UInt16)
    (segmentsOut : List SentSegment) :
    (t.tickHandle ticks windowSize segmentsOut).1.outstandings =
        t.outstandings ∧
      (t.tickHandle ticks windowSize segmentsOut).1.running = t.running ∧
      ∃ again, (t.tickHandle ticks windowSize segmentsOut).2 =
          segmentsOut ++ again ∧
        ∀ seg ∈ again, ∃ entry ∈ t.outstandings, entry.1 = seg := by
  have hfront : ∀ seg ∈ (t.outstandings.head?.map Prod.fst).toList,
      ∃ entry ∈ t.outstandings, entry.1 = seg := by
    intro seg hseg
    obtain ⟨entry, hentry, rfl⟩ := Option.map_eq_some_iff.mp
      (Option.mem_toList.mp hseg)
    exact ⟨entry, List.mem_of_head? hentry, rfl⟩
  unfold tickHandle
  split_ifs
  · exact ⟨rfl, rfl, _, rfl, hfront⟩
  · exact ⟨rfl, rfl, _, rfl, hfront⟩
  · exact ⟨rfl, rfl, [], by simp, by simp⟩
  · exact ⟨rfl, rfl, [], by simp, by simp⟩

/-- A tick sends nothing again unless the timer expires; then it sends the
oldest outstanding segment. -/
theorem tickHandle_snd (t : Timer) (ticks : ℕ) (windowSize : UInt16)
    (segmentsOut : List SentSegment) :
    (t.tickHandle ticks windowSize segmentsOut).2 =
      segmentsOut ++
        if t.Expires ticks then (t.outstandings.head?.map Prod.fst).toList
        else [] := by
  unfold tickHandle Expires
  split_ifs <;> simp_all

end Timer
end Sponge
