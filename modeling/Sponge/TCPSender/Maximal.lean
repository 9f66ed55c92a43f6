import Sponge.TCPSender.Stable

/-!
# `fill_window` sends what the window allows

The sequence numbers that are ready to be sent are the SYN, the buffered bytes
and, at the end of the stream, the FIN.  A turn of the loop moves some of them
from the unsent to the sent, so that `nextSeqno + unsent` stays what it was, and
the loop ends when the window is full or nothing is left.
-/

namespace Sponge
namespace TCPSender

open Support

/-- The sequence numbers that are ready to be sent. -/
def unsent (s : TCPSender) : ℕ :=
  (decide (s.nextSeqno = 0)).toNat + s.stream.bufferSize +
    (s.stream.inputEnded && !s.finSended).toNat

/-! ## The number of turns -/

/-- Turns beyond the distance to the end of the window change nothing. -/
theorem fillLoop_of_le {endSeqno fuel fuel' : ℕ} {s : TCPSender}
    (hfuel : endSeqno - s.nextSeqno ≤ fuel) (hle : fuel ≤ fuel') :
    fillLoop endSeqno fuel' s = fillLoop endSeqno fuel s := by
  induction fuel generalizing s fuel' with
  | zero =>
      refine fillLoop_of_not_canSend ?_ fuel'
      rintro ⟨-, hlt, -⟩
      omega
  | succ fuel ih =>
      obtain ⟨more, rfl⟩ : ∃ more, fuel' = more + 1 :=
        ⟨fuel' - 1, by omega⟩
      by_cases hcan : s.CanSend endSeqno
      · have hemits := sendSegment_spec hcan
        have hpos := hemits.pos
        have hnext := hemits.nextSeqno
        rw [fillLoop, fillLoop, if_pos hcan, if_pos hcan]
        exact ih (by omega) (by omega)
      · rw [fillLoop_of_not_canSend hcan, fillLoop_of_not_canSend hcan]

/-! ## What is sent is no longer unsent -/

theorem unsent_emits {endSeqno : ℕ} {s s' : TCPSender} {seg : SentSegment}
    (hcan : s.CanSend endSeqno) (hemits : Emits endSeqno s seg s') :
    s'.nextSeqno + s'.unsent = s.nextSeqno + s.unsent := by
  have hpos := hemits.pos
  have hnext := hemits.nextSeqno
  have hlen : seg.lengthInSequenceSpace = seg.payload.length +
      (decide (s.nextSeqno = 0)).toNat + s'.finSended.toNat := by
    rw [TCPSegment.lengthInSequenceSpace_eq, hemits.header]
  have hbytes := congrArg List.length hemits.payload
  rw [List.length_append, ByteStream.length_contents,
    ByteStream.length_contents] at hbytes
  have hopened : (decide (s'.nextSeqno = 0)).toNat = 0 := by
    rw [decide_eq_false (by omega), Bool.toNat_false]
  -- the FIN is unsent before the turn and sent only at the end of the stream
  have hfin : (s'.stream.inputEnded && !s'.finSended).toNat +
      s'.finSended.toNat =
        (s.stream.inputEnded && !s.finSended).toNat := by
    rw [hcan.1, hemits.inputEnded]
    cases hsent : s'.finSended with
    | false => simp
    | true =>
        have hended := (ByteStream.eof_iff.mp (hemits.eof hsent)).1
        rw [hemits.inputEnded] at hended
        simp [hended]
  simp only [unsent, ByteStream.bufferSize_eq]
  omega

theorem Fills.unsent {endSeqno : ℕ} {s s' : TCPSender}
    {segs : List SentSegment} (h : Fills endSeqno s segs s') :
    s'.nextSeqno + s'.unsent = s.nextSeqno + s.unsent := by
  induction h with
  | nil => rfl
  | cons hcan hemits _ ih => exact ih.trans (unsent_emits hcan hemits)

/-- The loop does not go beyond the end of the window, and does not move if it
starts there. -/
theorem Fills.nextSeqno_le {endSeqno : ℕ} {s s' : TCPSender}
    {segs : List SentSegment} (h : Fills endSeqno s segs s') :
    s'.nextSeqno ≤ max s.nextSeqno endSeqno := by
  induction h with
  | nil => exact le_max_left _ _
  | cons hcan hemits _ ih =>
      have hfits := hemits.fits
      have hnext := hemits.nextSeqno
      omega

/-! ## The window is used up -/

/-- When the loop stops before the end of the window, nothing is left. -/
theorem unsent_eq_zero {endSeqno : ℕ} {s : TCPSender}
    (hstop : ¬s.CanSend endSeqno) (hlt : s.nextSeqno < endSeqno)
    (hdrained : s.Drained) (hsyn : s.FinAfterSyn) : s.unsent = 0 := by
  cases hfin : s.finSended with
  | true =>
      obtain ⟨-, hsz⟩ := ByteStream.eof_iff.mp (hdrained hfin)
      have hpos := hsyn hfin
      simp [unsent, hfin, hsz]
      omega
  | false =>
      have hnone : ¬(s.stream.bufferEmpty = false ∨ s.nextSeqno = 0 ∨
          s.stream.eof = true) := fun h => hstop ⟨hfin, hlt, h⟩
      simp only [not_or, Bool.not_eq_false, ByteStream.bufferEmpty,
        beq_iff_eq] at hnone
      obtain ⟨hsz, hopened, hopen⟩ := hnone
      have hended : s.stream.inputEnded = false := by
        simpa [ByteStream.eof, hsz] using hopen
      simp [unsent, hsz, hopened, hended]

/-- Where a call of `fill_window` stops. -/
theorem nextSeqno_fillWindow {s : TCPSender} (hdrained : s.Drained)
    (hsyn : s.FinAfterSyn) :
    s.fillWindow.nextSeqno =
      if s.endSeqno ≤ s.nextSeqno then s.nextSeqno
      else min s.endSeqno (s.nextSeqno + s.unsent) := by
  obtain ⟨segs, hfills, hstop⟩ := s.fillWindow_spec
  have hsum := hfills.unsent
  have hle := hfills.nextSeqno_le
  by_cases hfull : s.endSeqno ≤ s.nextSeqno
  · rw [if_pos hfull, fillWindow, Nat.sub_eq_zero_of_le hfull, fillLoop]
  · rw [if_neg hfull]
    rcases Nat.lt_or_ge s.fillWindow.nextSeqno s.endSeqno with hlt | hge
    · have hzero := unsent_eq_zero hstop hlt (stable_drained.fillWindow s hdrained)
        (stable_finAfterSyn.fillWindow s hsyn)
      omega
    · omega

/-- At the end of the stream the FIN is sent exactly when everything fits. -/
theorem finSended_fillWindow_iff {s : TCPSender} (hdrained : s.Drained)
    (hsyn : s.FinAfterSyn) (hended : s.stream.inputEnded = true)
    (hfin : s.finSended = false) :
    s.fillWindow.finSended = true ↔ s.nextSeqno + s.unsent ≤ s.endSeqno := by
  obtain ⟨segs, hfills, -⟩ := s.fillWindow_spec
  obtain ⟨-, -, hstill⟩ := hfills.unchanged
  have hsum := hfills.unsent
  have hle := hfills.nextSeqno_le
  have hnext := nextSeqno_fillWindow hdrained hsyn
  have hready : 1 ≤ s.unsent := by
    simp [unsent, hended, hfin]
  constructor
  · intro hsent
    obtain ⟨-, hsz⟩ := ByteStream.eof_iff.mp
      (stable_drained.fillWindow s hdrained hsent)
    have hpos := stable_finAfterSyn.fillWindow s hsyn hsent
    have hzero : s.fillWindow.unsent = 0 := by
      simp [unsent, hsent, hsz]
      omega
    omega
  · intro hfits
    have hzero : s.fillWindow.unsent = 0 := by
      rw [if_neg (by omega), min_eq_right hfits] at hnext
      omega
    simp only [unsent, hstill, hended, Bool.true_and] at hzero
    cases hsent : s.fillWindow.finSended with
    | true => rfl
    | false => simp [hsent] at hzero

theorem fillWindow_idem (s : TCPSender) :
    s.fillWindow.fillWindow = s.fillWindow := by
  obtain ⟨segs, hfills, hstop⟩ := s.fillWindow_spec
  obtain ⟨hackno, hwindow, -⟩ := hfills.unchanged
  have hend : s.fillWindow.endSeqno = s.endSeqno := by
    rw [endSeqno, endSeqno, hackno, hwindow]
  refine fillLoop_of_not_canSend ?_ _
  rw [hend]
  exact hstop

namespace Session

/-- **`fill_window` sends exactly what the window allows.**  In every session
without a write after `end_input`, with `n` the next sequence number, `E` the
end of the window and `U` the sequence numbers ready to be sent: the loop stops
by its own condition, however many turns it is given; it moves the next sequence
number to `E` or, if that is less, to `n + U`, and not at all if it is at `E`
already; it sends the FIN of an ended stream exactly if `n + U` is not beyond
`E`; and a second call does nothing. -/
theorem fillWindow_maximal (capacity : ℕ) (retxTimeout : UInt16)
    (fixedIsn : Option WrappingInt32) (random : UInt32) {ops : List Op}
    (hops : EveryStep step (new capacity retxTimeout fixedIsn random) ops
      NoLateWrite) :
    let s := (run capacity retxTimeout fixedIsn random ops).sender
    let n := s.nextSeqno
    let E := s.ackno + max 1 s.windowSize.toNat
    let U := s.unsent
    (∀ fuel, E - n ≤ fuel → fillLoop E fuel s = s.fillWindow) ∧
      ¬s.fillWindow.CanSend E ∧
      s.fillWindow.nextSeqno = (if E ≤ n then n else min E (n + U)) ∧
      (s.stream.inputEnded = true → s.finSended = false →
        ((∃ seg ∈ s.fillWindow.segmentsOut.drop s.segmentsOut.length,
          seg.header.fin = true) ↔ n + U ≤ E)) ∧
      s.fillWindow.fillWindow = s.fillWindow := by
  intro s n E U
  have hdrained : s.Drained :=
    drained_run capacity retxTimeout fixedIsn random hops
  have hsyn : s.FinAfterSyn :=
    finAfterSyn_run capacity retxTimeout fixedIsn random ops
  have hE : s.endSeqno = E := s.endSeqno_eq
  obtain ⟨segs, hfills, hstop⟩ := s.fillWindow_spec
  rw [← hE]
  refine ⟨?_, hstop, nextSeqno_fillWindow hdrained hsyn, ?_,
    s.fillWindow_idem⟩
  · intro fuel hfuel
    exact fillLoop_of_le le_rfl hfuel
  · intro hended hfin
    rw [hfills.segmentsOut, List.drop_left, hfills.exists_fin_iff hfin]
    exact finSended_fillWindow_iff hdrained hsyn hended hfin

/-- Two bytes and the FIN in a window of three. -/
theorem fillWindow_maximal_fin :
    let s := (run 10 1000 (some ⟨7⟩) 0 [.fillWindow, .ackReceived ⟨8⟩ 3,
      .write [1, 2], .endInput]).sender
    s.nextSeqno = 1 ∧ s.unsent = 3 ∧ s.fillWindow.nextSeqno = 4 ∧
      s.fillWindow.finSended = true := by
  intro s
  have hops : EveryStep step (new 10 1000 (some ⟨7⟩) 0) [.fillWindow,
      .ackReceived ⟨8⟩ 3, .write [1, 2], .endInput] NoLateWrite := by
    decide +kernel
  obtain ⟨-, -, hnext, -, -⟩ := fillWindow_maximal 10 1000 (some ⟨7⟩) 0 hops
  have hn : s.nextSeqno = 1 := by decide +kernel
  have hU : s.unsent = 3 := by decide +kernel
  have hE : s.ackno + max 1 s.windowSize.toNat = 4 := by decide +kernel
  rw [hn, hU, hE] at hnext
  exact ⟨hn, hU, hnext, by decide +kernel⟩

end Session
end TCPSender
end Sponge
