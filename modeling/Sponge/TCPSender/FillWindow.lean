import Sponge.TCPSender.Queue

/-!
# The specification of `fill_window`

One turn of the loop sends one segment; `Emits` says everything about it that
is used later.  A run of the loop is a sequence of such turns and stops when the
condition of the loop fails, never earlier.
-/

namespace Sponge
namespace TCPSender

/-! ## One turn of the loop -/

/-- The length of the payload of the next segment. -/
def readLen (s : TCPSender) (endSeqno : ℕ) : ℕ :=
  min (min (endSeqno - s.nextSeqno - (decide (s.nextSeqno = 0)).toNat)
    s.stream.bufferSize) TCPConfig.maxPayloadSize

/-- The FIN goes with the next segment: the stream is at its end after it, and
there is room for one more sequence number. -/
def withFin (s : TCPSender) (endSeqno : ℕ) : Bool :=
  decide (s.readLen endSeqno + (decide (s.nextSeqno = 0)).toNat <
      endSeqno - s.nextSeqno) &&
    (s.stream.read (s.readLen endSeqno)).1.eof

def nextSegment (s : TCPSender) (endSeqno : ℕ) : SentSegment where
  header :=
    { syn := s.nextSeqno = 0, seqno := wrap s.nextSeqno s.isn,
      fin := s.withFin endSeqno }
  payload := s.stream.contents.take (s.readLen endSeqno)
  absSeqno := s.nextSeqno

theorem length_payload (s : TCPSender) (endSeqno : ℕ) :
    (s.stream.contents.take (s.readLen endSeqno)).length =
      s.readLen endSeqno := by
  rw [List.length_take, ByteStream.length_contents, readLen,
    ByteStream.bufferSize_eq]
  omega

theorem length_nextSegment (s : TCPSender) (endSeqno : ℕ) :
    (s.nextSegment endSeqno).lengthInSequenceSpace =
      s.readLen endSeqno + (decide (s.nextSeqno = 0)).toNat +
        (s.withFin endSeqno).toNat := by
  rw [TCPSegment.lengthInSequenceSpace_eq]
  simp only [nextSegment, length_payload]

/-- The body of the loop, with the segment it makes. -/
theorem sendSegment_eq {s : TCPSender} (hfin : s.finSended = false)
    (endSeqno : ℕ) :
    s.sendSegment endSeqno =
      { s with
        stream := (s.stream.read (s.readLen endSeqno)).1
        finSended := s.withFin endSeqno
        bytesInFlight := s.bytesInFlight +
          (s.nextSegment endSeqno).lengthInSequenceSpace
        nextSeqno := s.nextSeqno +
          (s.nextSegment endSeqno).lengthInSequenceSpace
        segmentsOut := s.segmentsOut ++ [s.nextSegment endSeqno]
        timer := s.timer.on.pushOutstanding (s.nextSegment endSeqno)
          (s.nextSeqno +
            (s.nextSegment endSeqno).lengthInSequenceSpace) } := by
  have hlen := s.length_payload endSeqno
  have hread : min (min (endSeqno - s.nextSeqno -
      (decide (s.nextSeqno = 0)).toNat) s.stream.bufferSize)
      TCPConfig.maxPayloadSize = s.readLen endSeqno := rfl
  rw [length_nextSegment]
  simp only [sendSegment, hread, ByteStream.read_snd,
    TCPSegment.lengthInSequenceSpace_eq, nextSegment, hlen,
    Bool.toNat_false, Nat.add_zero]
  by_cases hfits : s.readLen endSeqno + (decide (s.nextSeqno = 0)).toNat <
      endSeqno - s.nextSeqno
  · have hflag : s.withFin endSeqno =
        (s.stream.read (s.readLen endSeqno)).1.eof := by
      simp [withFin, hfits]
    simp only [if_pos hfits, hflag]
  · have hflag : s.withFin endSeqno = false := by simp [withFin, hfits]
    simp [if_neg hfits, hflag, hfin]

/-- The sender `s` sends `seg` below `endSeqno` and becomes `s'`. -/
structure Emits (endSeqno : ℕ) (s : TCPSender) (seg : SentSegment)
    (s' : TCPSender) : Prop where
  header : seg.header =
    { syn := s.nextSeqno = 0, seqno := wrap s.nextSeqno s.isn,
      fin := s'.finSended }
  absSeqno : seg.absSeqno = s.nextSeqno
  payload : s.stream.contents = seg.payload ++ s'.stream.contents
  pos : 0 < seg.lengthInSequenceSpace
  fits : s.nextSeqno + seg.lengthInSequenceSpace ≤ endSeqno
  eof : s'.finSended = true → s'.stream.eof = true
  isn : s'.isn = s.isn
  ackno : s'.ackno = s.ackno
  windowSize : s'.windowSize = s.windowSize
  inputEnded : s'.stream.inputEnded = s.stream.inputEnded
  nextSeqno : s'.nextSeqno = s.nextSeqno + seg.lengthInSequenceSpace
  bytesInFlight :
    s'.bytesInFlight = s.bytesInFlight + seg.lengthInSequenceSpace
  segmentsOut : s'.segmentsOut = s.segmentsOut ++ [seg]
  outstandings : s'.timer.outstandings =
    s.timer.outstandings ++ [(seg, s'.nextSeqno)]
  running : s'.timer.running = true
  retransmissions : s'.timer.consecutiveRetransmissions =
    s.timer.consecutiveRetransmissions

/-- A segment that may be sent is not empty: it is the SYN, or carries a byte
of the buffer, or the FIN. -/
theorem length_nextSegment_pos {s : TCPSender} {endSeqno : ℕ}
    (h : s.CanSend endSeqno) :
    0 < (s.nextSegment endSeqno).lengthInSequenceSpace := by
  obtain ⟨-, hlt, hsome⟩ := h
  rw [length_nextSegment]
  by_cases hzero : s.nextSeqno = 0
  · simp only [hzero, decide_true, Bool.toNat_true]
    omega
  · rcases Nat.eq_zero_or_pos s.stream.sz with hsz | hsz
    · have heof : s.stream.eof = true := by
        rcases hsome with hbuffer | hnext | heof
        · simp [ByteStream.bufferEmpty, hsz] at hbuffer
        · exact absurd hnext hzero
        · exact heof
      have hempty : s.readLen endSeqno = 0 := by simp [readLen, hsz]
      have hread : (s.stream.read (s.readLen endSeqno)).1.eof = true :=
        ByteStream.eof_iff.mpr
          ⟨(ByteStream.eof_iff.mp heof).1, by simp [hsz]⟩
      have hwith : s.withFin endSeqno = true := by
        simp only [withFin, hread, Bool.and_true, decide_eq_true_eq]
        simp only [hempty, hzero, decide_false, Bool.toNat_false]
        omega
      simp [hwith]
    · have hpos : 0 < s.readLen endSeqno := by
        simp only [readLen, hzero, decide_false, Bool.toNat_false,
          ByteStream.bufferSize_eq, TCPConfig.maxPayloadSize]
        omega
      omega

theorem length_nextSegment_le {s : TCPSender} {endSeqno : ℕ}
    (h : s.CanSend endSeqno) :
    s.nextSeqno + (s.nextSegment endSeqno).lengthInSequenceSpace ≤
      endSeqno := by
  obtain ⟨-, hlt, -⟩ := h
  rw [length_nextSegment]
  have hle : s.readLen endSeqno ≤
      endSeqno - s.nextSeqno - (decide (s.nextSeqno = 0)).toNat :=
    (min_le_left _ _).trans (min_le_left _ _)
  have hsyn := (decide (s.nextSeqno = 0)).toNat_le
  cases hwith : s.withFin endSeqno with
  | false =>
      rw [Bool.toNat_false]
      omega
  | true =>
      simp only [withFin, Bool.and_eq_true, decide_eq_true_eq] at hwith
      rw [Bool.toNat_true]
      omega

theorem sendSegment_spec {s : TCPSender} {endSeqno : ℕ}
    (h : s.CanSend endSeqno) :
    Emits endSeqno s (s.nextSegment endSeqno) (s.sendSegment endSeqno) := by
  rw [sendSegment_eq h.1]
  refine ⟨rfl, rfl, ?_, length_nextSegment_pos h, length_nextSegment_le h, ?_,
    rfl, rfl, rfl, rfl, rfl, rfl, rfl, rfl, rfl, rfl⟩
  · simp [nextSegment]
  · intro hwith
    simp only [withFin, Bool.and_eq_true] at hwith
    exact hwith.2

/-! ## The loop -/

/-- The sender `s` sends the segments `segs`, one turn of the loop after the
other, and becomes the last sender. -/
inductive Fills (endSeqno : ℕ) :
    TCPSender → List SentSegment → TCPSender → Prop
  | nil (s : TCPSender) : Fills endSeqno s [] s
  | cons {s s₁ s' : TCPSender} {seg : SentSegment} {segs : List SentSegment}
      (hcan : s.CanSend endSeqno) (hemits : Emits endSeqno s seg s₁)
      (hrest : Fills endSeqno s₁ segs s') : Fills endSeqno s (seg :: segs) s'

theorem fillLoop_of_not_canSend {endSeqno : ℕ} {s : TCPSender}
    (h : ¬s.CanSend endSeqno) (fuel : ℕ) : fillLoop endSeqno fuel s = s := by
  cases fuel with
  | zero => rfl
  | succ fuel => rw [fillLoop, if_neg h]

theorem fillLoop_spec (endSeqno fuel : ℕ) (s : TCPSender)
    (hfuel : endSeqno - s.nextSeqno ≤ fuel) :
    ∃ segs, Fills endSeqno s segs (fillLoop endSeqno fuel s) ∧
      ¬(fillLoop endSeqno fuel s).CanSend endSeqno := by
  induction fuel generalizing s with
  | zero =>
      refine ⟨[], .nil s, ?_⟩
      rintro ⟨-, hlt, -⟩
      simp only [fillLoop] at hlt
      omega
  | succ fuel ih =>
      by_cases hcan : s.CanSend endSeqno
      · -- a turn takes at least one sequence number
        have hemits := sendSegment_spec hcan
        have hpos := hemits.pos
        have hnext := hemits.nextSeqno
        obtain ⟨segs, hfills, hstop⟩ :=
          ih (s.sendSegment endSeqno) (by omega)
        rw [fillLoop, if_pos hcan]
        exact ⟨_, .cons hcan hemits hfills, hstop⟩
      · rw [fillLoop_of_not_canSend hcan]
        exact ⟨[], .nil s, hcan⟩

/-- `fill_window` sends segments until the condition of its loop fails. -/
theorem fillWindow_spec (s : TCPSender) :
    ∃ segs, Fills s.endSeqno s segs s.fillWindow ∧
      ¬s.fillWindow.CanSend s.endSeqno :=
  fillLoop_spec s.endSeqno _ s le_rfl

/-- The invariant rule for `fill_window`. -/
theorem Fills.invariant {endSeqno : ℕ} {I : TCPSender → Prop}
    (hstep : ∀ s seg s₁, s.CanSend endSeqno → I s →
      Emits endSeqno s seg s₁ → I s₁)
    {s s' : TCPSender} {segs : List SentSegment}
    (h : Fills endSeqno s segs s') (hs : I s) : I s' := by
  induction h with
  | nil => exact hs
  | cons hcan hemits _ ih => exact ih (hstep _ _ _ hcan hs hemits)

/-- The invariant rule for the sender together with the segments it sends. -/
theorem Fills.forall_mem {endSeqno : ℕ} {I : TCPSender → Prop}
    {Q : SentSegment → Prop}
    (hstep : ∀ s seg s₁, s.CanSend endSeqno → I s →
      Emits endSeqno s seg s₁ → I s₁ ∧ Q seg)
    {s s' : TCPSender} {segs : List SentSegment}
    (h : Fills endSeqno s segs s') (hs : I s) : ∀ seg ∈ segs, Q seg := by
  induction h with
  | nil => simp
  | cons hcan hemits _ ih =>
      obtain ⟨hnext, hseg⟩ := hstep _ _ _ hcan hs hemits
      intro seg hmem
      rcases List.mem_cons.mp hmem with rfl | hmem
      · exact hseg
      · exact ih hnext seg hmem

theorem Fills.segmentsOut {endSeqno : ℕ} {s s' : TCPSender}
    {segs : List SentSegment} (h : Fills endSeqno s segs s') :
    s'.segmentsOut = s.segmentsOut ++ segs := by
  induction h with
  | nil => simp
  | cons _ hemits _ ih =>
      rw [ih, hemits.segmentsOut, List.append_assoc, List.singleton_append]

theorem Fills.outstandings {endSeqno : ℕ} {s s' : TCPSender}
    {segs : List SentSegment} (h : Fills endSeqno s segs s') :
    s'.timer.outstandings.map Prod.fst =
      s.timer.outstandings.map Prod.fst ++ segs := by
  induction h with
  | nil => simp
  | cons _ hemits _ ih =>
      rw [ih, hemits.outstandings, List.map_append, List.append_assoc]
      rfl

/-- What `fill_window` leaves alone. -/
theorem Fills.unchanged {endSeqno : ℕ} {s s' : TCPSender}
    {segs : List SentSegment} (h : Fills endSeqno s segs s') :
    s'.ackno = s.ackno ∧ s'.windowSize = s.windowSize ∧
      s'.stream.inputEnded = s.stream.inputEnded := by
  induction h with
  | nil => exact ⟨rfl, rfl, rfl⟩
  | cons _ hemits _ ih =>
      exact ⟨ih.1.trans hemits.ackno, ih.2.1.trans hemits.windowSize,
        ih.2.2.trans hemits.inputEnded⟩

/-- Among the segments of a call there is one with the FIN exactly if the FIN
was not sent before the call and is sent after it. -/
theorem Fills.exists_fin_iff {endSeqno : ℕ} {s s' : TCPSender}
    {segs : List SentSegment} (h : Fills endSeqno s segs s')
    (hfin : s.finSended = false) :
    (∃ seg ∈ segs, seg.header.fin = true) ↔ s'.finSended = true := by
  induction h with
  | nil => simp [hfin]
  | @cons s s₁ s' seg segs hcan hemits hrest ih =>
      have hflag : seg.header.fin = s₁.finSended := by rw [hemits.header]
      cases hsent : s₁.finSended with
      | false => simp [hflag, hsent, ih hsent]
      | true =>
          -- the loop stops after the FIN
          cases hrest with
          | nil => simp [hflag, hsent]
          | cons hcan' _ _ =>
              rw [hcan'.1] at hsent
              cases hsent

/-- `fill_window` leaves the queue empty if it was empty and nothing can be
sent. -/
theorem segmentsOut_fillWindow_eq_nil_iff (s : TCPSender) :
    s.fillWindow.segmentsOut = [] ↔
      s.segmentsOut = [] ∧ ¬s.CanSend s.endSeqno := by
  obtain ⟨segs, hfills, hstop⟩ := s.fillWindow_spec
  generalize s.fillWindow = s' at hfills hstop
  rw [hfills.segmentsOut, List.append_eq_nil_iff]
  cases hfills with
  | nil => simp [hstop]
  | cons hcan _ _ => simp [hcan]

end TCPSender
end Sponge
