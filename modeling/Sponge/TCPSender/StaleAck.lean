import Sponge.TCPSender.Stable

/-!
# Outdated acknowledgments

`ack_received` accepts every number up to the next one to be sent, also numbers
below one it has accepted before.  A session is watched by the largest number
accepted so far.  An acknowledgment below it finds nothing in the queue that it
covers, but the sender adopts its number and its window and clears the
retransmission count all the same.
-/

namespace Sponge
namespace TCPSender

open Support

/-- Nothing outstanding is covered by `m`, which was sent. -/
structure AckedTo (s : TCPSender) (m : ℕ) : Prop extends Valid s where
  le_next : m ≤ s.nextSeqno
  uncovered : Timer.Uncovered s.timer.outstandings m

theorem ackedTo_new (capacity : ℕ) (retxTimeout : UInt16)
    (fixedIsn : Option WrappingInt32) (random : UInt32) :
    (new capacity retxTimeout fixedIsn random).AckedTo 0 where
  toValid := valid_new capacity retxTimeout fixedIsn random
  le_next := le_rfl
  uncovered := by simp [Timer.Uncovered, new, Timer.new]

theorem AckedTo.congr {s s' : TCPSender} {m : ℕ} (h : s.AckedTo m)
    (hvalid : s'.Valid) (hnext : s'.nextSeqno = s.nextSeqno)
    (hqueue : s'.timer.outstandings = s.timer.outstandings) :
    s'.AckedTo m where
  toValid := hvalid
  le_next := hnext ▸ h.le_next
  uncovered := hqueue ▸ h.uncovered

theorem AckedTo.emits {s s' : TCPSender} {m endSeqno : ℕ} {seg : SentSegment}
    (h : s.AckedTo m) (hemits : Emits endSeqno s seg s') : s'.AckedTo m := by
  have hle := h.le_next
  have hpos := hemits.pos
  have hnext := hemits.nextSeqno
  refine ⟨h.toValid.emits hemits, by omega, ?_⟩
  rw [hemits.outstandings]
  intro entry hmem
  rcases List.mem_append.mp hmem with hold | hnew
  · exact h.uncovered entry hold
  · rw [List.mem_singleton] at hnew
    subst hnew
    dsimp only
    omega

theorem AckedTo.fillWindow {s : TCPSender} {m : ℕ} (h : s.AckedTo m) :
    s.fillWindow.AckedTo m := by
  obtain ⟨segs, hfills, -⟩ := s.fillWindow_spec
  exact hfills.invariant (I := fun s => s.AckedTo m)
    (fun _ _ _ _ h₁ hemits => h₁.emits hemits) h

/-- An accepted acknowledgment leaves nothing in the queue that it covers. -/
theorem AckedTo.ackReceived {s : TCPSender} {m : ℕ} (h : s.AckedTo m)
    {ackno : WrappingInt32} {tmp : ℕ}
    (htmp : unwrap ackno s.isn s.nextSeqno = tmp) (hle : tmp ≤ s.nextSeqno)
    (windowSize : UInt16) :
    (s.ackReceived ackno windowSize).AckedTo (max m tmp) := by
  have hvalid := h.toValid.ackReceived ackno windowSize
  obtain ⟨-, -, hsuffix, -⟩ := s.timer.ackHandle_spec tmp h.chain h.running
  rw [ackReceived_of_le htmp hle] at hvalid ⊢
  refine ⟨hvalid, max_le h.le_next hle, ?_⟩
  intro entry hmem
  refine max_lt (h.uncovered entry (hsuffix.subset hmem)) ?_
  exact Timer.ackHandle_uncovered s.timer tmp h.chain entry hmem

/-- An acknowledgment below an accepted one changes the number, the window and
the retransmission count, and nothing else. -/
theorem AckedTo.ackReceived_stale {s : TCPSender} {m : ℕ} (h : s.AckedTo m)
    {ackno : WrappingInt32} {tmp : ℕ}
    (htmp : unwrap ackno s.isn s.nextSeqno = tmp) (hstale : tmp < m)
    (windowSize : UInt16) :
    s.ackReceived ackno windowSize =
      { s with
        ackno := tmp
        windowSize := windowSize
        timer := { s.timer with consecutiveRetransmissions := 0 } } := by
  have hle := h.le_next
  have huncovered : Timer.Uncovered s.timer.outstandings tmp :=
    fun entry hmem => hstale.trans (h.uncovered entry hmem)
  rw [ackReceived_of_le htmp (by omega),
    Timer.ackHandle_of_uncovered huncovered h.running]
  simp [subSize_of_le]

theorem AckedTo.ackReceived_eq_self_iff {s : TCPSender} {m : ℕ}
    (h : s.AckedTo m) {ackno : WrappingInt32} {tmp : ℕ}
    (htmp : unwrap ackno s.isn s.nextSeqno = tmp) (hstale : tmp < m)
    (win : UInt16) :
    s.ackReceived ackno win = s ↔
      s.ackno = tmp ∧ s.windowSize = win ∧
        s.consecutiveRetransmissions = 0 := by
  rw [h.ackReceived_stale htmp hstale]
  constructor
  · intro hsame
    refine ⟨?_, ?_, ?_⟩
    · exact (congrArg (fun s : TCPSender => s.ackno) hsame).symm
    · exact (congrArg (fun s : TCPSender => s.windowSize) hsame).symm
    · exact (congrArg TCPSender.consecutiveRetransmissions hsame).symm
  · rintro ⟨hackno, hwindow, hcount⟩
    rw [← hackno, ← hwindow, ← hcount]
    rfl

namespace Session

/-- The largest absolute number accepted so far. -/
def highestAck (s : Session) (m : ℕ) : Op → ℕ
  | .ackReceived ackno _ =>
      if s.sender.Accepts ackno then
        max m (unwrap ackno s.sender.isn s.sender.nextSeqno)
      else m
  | .write _ | .endInput | .fillWindow | .tick _ | .sendEmptySegment
  | .transmit => m

/-- The largest absolute number that a session has accepted. -/
def highest (capacity : ℕ) (retxTimeout : UInt16)
    (fixedIsn : Option WrappingInt32) (random : UInt32) (ops : List Op) : ℕ :=
  (ops.foldl (observe step highestAck)
    (new capacity retxTimeout fixedIsn random, 0)).2

/-- An acknowledgment is accepted and may raise the number, or it is ignored. -/
theorem highestAck_cases (s : Session) (m : ℕ) (ackno : WrappingInt32)
    (windowSize : UInt16) :
    (∃ tmp, unwrap ackno s.sender.isn s.sender.nextSeqno = tmp ∧
        tmp ≤ s.sender.nextSeqno ∧
        highestAck s m (.ackReceived ackno windowSize) = max m tmp) ∨
      (s.sender.ackReceived ackno windowSize = s.sender ∧
        highestAck s m (.ackReceived ackno windowSize) = m) := by
  obtain ⟨tmp, htmp⟩ : ∃ tmp,
      unwrap ackno s.sender.isn s.sender.nextSeqno = tmp := ⟨_, rfl⟩
  simp only [highestAck, Accepts, htmp]
  by_cases hle : tmp ≤ s.sender.nextSeqno
  · exact Or.inl ⟨tmp, rfl, hle, if_pos hle⟩
  · exact Or.inr ⟨ackReceived_of_lt htmp (Nat.not_le.mp hle) windowSize,
      if_neg hle⟩

/-- The acknowledgment leaves the sender as it is, and whatever is done
afterwards goes as it would have gone without it. -/
def Harmless (s : Session) (ackno : WrappingInt32) (win : UInt16) : Prop :=
  (s.step (.ackReceived ackno win)).sender = s.sender ∧
    ∀ later : List Op,
      later.foldl step (s.step (.ackReceived ackno win)) = later.foldl step s

theorem ackedTo_step {s : Session} {m : ℕ} (h : s.sender.AckedTo m)
    (op : Op) : (s.step op).sender.AckedTo (highestAck s m op) := by
  have hvalid := valid_step h.toValid op
  cases op with
  | write data => exact h.congr hvalid rfl rfl
  | endInput => exact h.congr hvalid rfl rfl
  | fillWindow => exact h.fillWindow
  | ackReceived ackno windowSize =>
      rw [step_ackReceived]
      rcases highestAck_cases s m ackno windowSize with
        ⟨tmp, htmp, hle, hmax⟩ | ⟨hsame, hmax⟩
      · rw [hmax]
        exact h.ackReceived htmp hle windowSize
      · rw [hmax, hsame]
        exact h
  | tick ms =>
      obtain ⟨hqueue, -⟩ := s.sender.timer.tickHandle_spec ms
        s.sender.windowSize s.sender.segmentsOut
      exact h.congr hvalid rfl hqueue
  | sendEmptySegment => exact h.congr hvalid rfl rfl
  | transmit => exact h.congr hvalid rfl rfl

theorem ackedTo_run (capacity : ℕ) (retxTimeout : UInt16)
    (fixedIsn : Option WrappingInt32) (random : UInt32) (ops : List Op) :
    (run capacity retxTimeout fixedIsn random ops).sender.AckedTo
      (highest capacity retxTimeout fixedIsn random ops) :=
  observe_invariant (I := fun (s : Session) m => s.sender.AckedTo m)
    (fun _ _ op h => ackedTo_step h op) ops
    (ackedTo_new capacity retxTimeout fixedIsn random)

/-- **Outdated acknowledgments.**  In every reachable state, an acknowledgment
below the largest number accepted so far is harmless if and only if it repeats
the number and the window that the sender has adopted last, and no
retransmission is counted. -/
theorem harmless_iff_repeats (capacity : ℕ) (retxTimeout : UInt16)
    (fixedIsn : Option WrappingInt32) (random : UInt32) (ops : List Op)
    (ackno : WrappingInt32) (win : UInt16) :
    let s := run capacity retxTimeout fixedIsn random ops
    let tmp := unwrap ackno s.sender.isn s.sender.nextSeqno
    tmp < highest capacity retxTimeout fixedIsn random ops →
      (s.Harmless ackno win ↔
        s.sender.ackno = tmp ∧ s.sender.windowSize = win ∧
          s.sender.consecutiveRetransmissions = 0) := by
  intro s tmp hstale
  have hacked : s.sender.AckedTo
      (highest capacity retxTimeout fixedIsn random ops) :=
    ackedTo_run capacity retxTimeout fixedIsn random ops
  rw [← hacked.ackReceived_eq_self_iff rfl hstale win]
  constructor
  · rintro ⟨hsame, -⟩
    rwa [step_ackReceived] at hsame
  · intro hsame
    have hstep : s.step (.ackReceived ackno win) = s := by
      rw [step_ackReceived, hsame]
    exact ⟨by rw [hstep], fun later => by rw [hstep]⟩

/-- The SYN and three bytes are sent and acknowledged. -/
def delivered : List Op :=
  [.fillWindow, .ackReceived ⟨1⟩ 10, .write [1, 2, 3], .fillWindow,
    .ackReceived ⟨4⟩ 10]

/-- The acknowledgment of the SYN comes again, with a smaller window, and then
once more. -/
theorem harmless_second_time :
    (run 10 1000 (some ⟨0⟩) 0 (delivered ++ [.ackReceived ⟨1⟩ 3])).Harmless
      ⟨1⟩ 3 := by
  have hiff := harmless_iff_repeats 10 1000 (some ⟨0⟩) 0
    (delivered ++ [.ackReceived ⟨1⟩ 3]) ⟨1⟩ 3 (by decide +kernel)
  exact hiff.mpr (by decide +kernel)

/-- The first time it is not harmless: it leaves the sender with a full window,
and the next byte is not sent. -/
theorem not_harmless_first_time :
    let s := run 10 1000 (some ⟨0⟩) 0 delivered
    unwrap ⟨1⟩ s.sender.isn s.sender.nextSeqno <
        highest 10 1000 (some ⟨0⟩) 0 delivered ∧
      ([.write [4], .fillWindow].foldl step
        (s.step (.ackReceived ⟨1⟩ 3))).created ≠
          ([.write [4], .fillWindow].foldl step s).created ∧
      ¬s.Harmless ⟨1⟩ 3 := by
  intro s
  have hmissing : ([.write [4], .fillWindow].foldl step
      (s.step (.ackReceived ⟨1⟩ 3))).created ≠
        ([.write [4], .fillWindow].foldl step s).created := by
    decide +kernel
  refine ⟨by decide +kernel, hmissing, ?_⟩
  rintro ⟨-, hlater⟩
  have hsame := congrArg Session.created (hlater [.write [4], .fillWindow])
  exact hmissing hsame

end Session
end TCPSender
end Sponge
