import Sponge.TCPSender.Outgoing

/-!
# When a sender waits

After `fill_window` a sender has nothing more to send, or its window is full, or
it has sent the FIN.  A full window is harmless as long as something is in
flight, since the acknowledgment for it will open the window again.

`ack_received` accepts every number up to the next one, old ones included, and
adopts its window.  An old acknowledgment that arrives while nothing is in
flight can leave the sender with a full window and nothing in flight.
-/

namespace Sponge
namespace TCPSender

/-- Nothing can be sent: the FIN was sent, the window is full, or there is
nothing to send. -/
def Settled (s : TCPSender) : Prop :=
  s.finSended = true ∨ (0 < s.nextSeqno ∧ s.endSeqno ≤ s.nextSeqno) ∨
    (s.stream.sz = 0 ∧ s.stream.inputEnded = false)

/-- With nothing in flight there is room in the window, unless the FIN was
sent. -/
def Unblocked (s : TCPSender) : Prop :=
  s.bytesInFlight = 0 → s.finSended = true ∨ s.nextSeqno < s.endSeqno

/-- The FIN was sent at the end of the stream, and nothing was written since. -/
def Drained (s : TCPSender) : Prop :=
  s.finSended = true → s.stream.eof = true

/-- An acknowledgment that arrives while nothing is in flight and before the FIN
was sent, and that puts the end of the window at or before the next sequence
number. -/
def Blocks (s : TCPSender) (ackno : WrappingInt32) (win : UInt16) : Prop :=
  s.finSended = false ∧ s.bytesInFlight = 0 ∧
    unwrap ackno s.isn s.nextSeqno + max 1 win.toNat ≤ s.nextSeqno

instance (s : TCPSender) (ackno : WrappingInt32) (win : UInt16) :
    Decidable (s.Blocks ackno win) := by
  unfold Blocks
  infer_instance

theorem endSeqno_eq (s : TCPSender) :
    s.endSeqno = s.ackno + max 1 s.windowSize.toNat := by
  unfold endSeqno
  split <;> omega

theorem settled_new (capacity : ℕ) (retxTimeout : UInt16)
    (fixedIsn : Option WrappingInt32) (random : UInt32) :
    (new capacity retxTimeout fixedIsn random).Settled :=
  Or.inr (Or.inr ⟨rfl, rfl⟩)

theorem unblocked_new (capacity : ℕ) (retxTimeout : UInt16)
    (fixedIsn : Option WrappingInt32) (random : UInt32) :
    (new capacity retxTimeout fixedIsn random).Unblocked := by
  intro _
  right
  simp [endSeqno_eq, new]

/-! ## `fill_window` -/

theorem settled_fillWindow (s : TCPSender) : s.fillWindow.Settled := by
  obtain ⟨segs, hfills, hstop⟩ := s.fillWindow_spec
  obtain ⟨hackno, hwindow, -⟩ := hfills.unchanged
  have hend : s.fillWindow.endSeqno = s.endSeqno := by
    rw [endSeqno, endSeqno, hackno, hwindow]
  by_contra hnot
  simp only [Settled, not_or, not_and, Bool.not_eq_true, Nat.not_le, hend]
    at hnot
  obtain ⟨hfin, hwindow, hempty⟩ := hnot
  apply hstop
  have hpos : 0 < s.endSeqno := by
    rw [endSeqno_eq]
    omega
  refine ⟨hfin, by omega, ?_⟩
  rcases Nat.eq_zero_or_pos s.fillWindow.stream.sz with hsz | hsz
  · have hended : s.fillWindow.stream.inputEnded = true := by
      simpa using hempty hsz
    exact Or.inr (Or.inr (ByteStream.eof_iff.mpr ⟨hended, hsz⟩))
  · left
    simp only [ByteStream.bufferEmpty, beq_eq_false_iff_ne]
    omega

theorem Unblocked.fillWindow {s : TCPSender} (h : s.Unblocked) :
    s.fillWindow.Unblocked := by
  obtain ⟨segs, hfills, -⟩ := s.fillWindow_spec
  refine hfills.invariant ?_ h
  intro s₁ seg s₂ _ _ hemits hidle
  have hpos := hemits.pos
  have hflight := hemits.bytesInFlight
  omega

theorem Drained.fillWindow {s : TCPSender} (h : s.Drained) :
    s.fillWindow.Drained := by
  obtain ⟨segs, hfills, -⟩ := s.fillWindow_spec
  refine hfills.invariant ?_ h
  intro s₁ seg s₂ _ _ hemits
  exact hemits.eof

/-- The FIN is sent at the end of the stream only, and so not before a write. -/
theorem Drained.write {s : TCPSender} (h : s.Drained)
    (hopen : s.stream.inputEnded = false) (data : List UInt8) :
    Drained { s with stream := (s.stream.write data).1 } := by
  intro hfin
  have hended := (ByteStream.eof_iff.mp (h hfin)).1
  rw [hopen] at hended
  cases hended

/-- After the FIN nothing is sent. -/
theorem fillWindow_of_finSended {s : TCPSender} (h : s.finSended = true) :
    s.fillWindow = s := by
  refine fillLoop_of_not_canSend ?_ _
  rintro ⟨hopen, -⟩
  rw [h] at hopen
  cases hopen

/-- Before the SYN there is nothing in the stream, so that sending the SYN does
not bring it to its end. -/
theorem Settled.eof_fillWindow {s : TCPSender} (h : s.Settled)
    (hzero : s.nextSeqno = 0) : s.fillWindow.stream.eof = s.stream.eof := by
  rcases h with hfin | ⟨hpos, -⟩ | ⟨-, hopen⟩
  · rw [fillWindow_of_finSended hfin]
  · omega
  · obtain ⟨segs, hfills, -⟩ := s.fillWindow_spec
    obtain ⟨-, -, hended⟩ := hfills.unchanged
    simp [ByteStream.eof, hended, hopen]

/-! ## Acknowledgments -/

theorem Unblocked.ackReceived {s : TCPSender} (h : s.Unblocked)
    (hvalid : s.Valid) {ackno : WrappingInt32} {win : UInt16}
    (hblocks : ¬s.Blocks ackno win) : (s.ackReceived ackno win).Unblocked := by
  obtain ⟨tmp, htmp⟩ : ∃ tmp, unwrap ackno s.isn s.nextSeqno = tmp :=
    ⟨_, rfl⟩
  rcases hvalid.ackReceived_cases ackno win htmp with
    ⟨-, heq⟩ | ⟨hle, timer, flight, heq, -, -, hflight, hmax⟩
  · rw [heq]
    exact h
  · rw [heq]
    intro hidle
    simp only [endSeqno_eq] at hidle ⊢
    by_contra hnot
    simp only [not_or, Bool.not_eq_true, Nat.not_lt] at hnot
    have hbound := hvalid.inFlight_le
    unfold queueStart at hmax
    -- the acknowledgment emptied the queue, or there was nothing in it
    exact hblocks ⟨hnot.1, by omega, by rw [htmp]; omega⟩

theorem Settled.ackReceived {s : TCPSender} (h : s.Settled)
    (hvalid : s.Valid) (hzero : s.nextSeqno = 0) (ackno : WrappingInt32)
    (win : UInt16) : (s.ackReceived ackno win).Settled := by
  rcases hvalid.ackReceived_cases ackno win rfl with
    ⟨-, heq⟩ | ⟨hle, timer, flight, heq, -⟩
  · rw [heq]
    exact h
  · rw [heq]
    rcases h with hfin | ⟨hpos, -⟩ | hnothing
    · exact Or.inl hfin
    · omega
    · exact Or.inr (Or.inr hnothing)

/-- Nothing is in flight, and the window is full before the FIN was sent. -/
structure Stuck (s : TCPSender) : Prop where
  unfinished : s.finSended = false
  idle : s.bytesInFlight = 0
  opened : 0 < s.nextSeqno
  full : s.endSeqno ≤ s.nextSeqno

/-- A blocking acknowledgment does leave the sender stuck. -/
theorem Blocks.stuck {s : TCPSender} {ackno : WrappingInt32} {win : UInt16}
    (h : s.Blocks ackno win) (hvalid : s.Valid) :
    (s.ackReceived ackno win).Stuck := by
  obtain ⟨tmp, htmp⟩ : ∃ tmp, unwrap ackno s.isn s.nextSeqno = tmp :=
    ⟨_, rfl⟩
  obtain ⟨hfin, hidle, hfull⟩ := h
  rw [htmp] at hfull
  rcases hvalid.ackReceived_cases ackno win htmp with
    ⟨hlt, -⟩ | ⟨-, timer, flight, heq, -, -, hflight, -⟩
  · omega
  · rw [heq]
    refine ⟨hfin, by dsimp only; omega, by dsimp only; omega, ?_⟩
    rw [endSeqno_eq]
    exact hfull

theorem Stuck.fillWindow {s : TCPSender} (h : s.Stuck) :
    s.fillWindow = s := by
  rw [TCPSender.fillWindow, Nat.sub_eq_zero_of_le h.full, fillLoop]

/-- With everything in flight acknowledged or waiting, unsent data or an unsent
FIN means that something is in flight. -/
theorem inFlight_pos {s : TCPSender} (hsettled : s.Settled)
    (hunblocked : s.Unblocked) (hdrained : s.Drained)
    (hunsent : 0 < s.stream.sz ∨
      (s.stream.inputEnded = true ∧ s.finSended = false)) :
    0 < s.bytesInFlight := by
  by_contra hidle
  have hroom := hunblocked (by omega)
  have hnofin : s.finSended = false := by
    by_contra hfin
    have heof := ByteStream.eof_iff.mp
      (hdrained (Bool.eq_true_of_not_eq_false hfin))
    rcases hunsent with hsz | ⟨-, hfalse⟩
    · omega
    · exact hfin hfalse
  rw [hnofin] at hroom
  rcases hsettled with hfin | ⟨-, hfull⟩ | ⟨hsz, hopen⟩
  · rw [hnofin] at hfin
    cases hfin
  · rcases hroom with hfalse | hlt
    · cases hfalse
    · omega
  · rcases hunsent with hpos | ⟨hended, -⟩
    · omega
    · rw [hopen] at hended
      cases hended

/-- At the end of the stream with nothing in flight, the FIN was sent. -/
theorem finSended_of_eof {s : TCPSender} (hsettled : s.Settled)
    (hunblocked : s.Unblocked) (heof : s.stream.eof = true)
    (hidle : s.bytesInFlight = 0) : s.finSended = true := by
  obtain ⟨hended, -⟩ := ByteStream.eof_iff.mp heof
  rcases hsettled with hfin | ⟨-, hfull⟩ | ⟨-, hopen⟩
  · exact hfin
  · rcases hunblocked hidle with hfin | hlt
    · exact hfin
    · omega
  · rw [hopen] at hended
    cases hended

end TCPSender
end Sponge
