import Sponge.TCPSender.Stable

/-!
# Exponential backoff and the retransmission count

The timer doubles its base timeout and counts a retransmission whenever it
expires while the window is open.  `ack_handle` takes both back, but at
different places: the count at every acknowledgment, the timeout only when a
segment leaves the queue.  A session is watched by the number of expirations
since an acknowledgment last covered a whole outstanding segment; the timeout
follows this number, and the count does as long as no acknowledgment that covers
nothing intervenes.
-/

namespace Sponge

open Support

namespace Timer

/-- An expiry with an open window doubles the timeout and is counted; nothing
else that a tick does shows in the two numbers. -/
theorem tickHandle_counters (t : Timer) (ticks : ℕ) (windowSize : UInt16)
    (segmentsOut : List SentSegment) :
    let t' := (t.tickHandle ticks windowSize segmentsOut).1
    t'.initialRto = t.initialRto ∧
      if t.Expires ticks ∧ windowSize ≠ 0 then
        t'.consecutiveRetransmissions =
            (t.consecutiveRetransmissions + 1) % 2 ^ 32 ∧
          t'.baseRto = t.baseRto * 2 % 2 ^ 32
      else
        t'.consecutiveRetransmissions = t.consecutiveRetransmissions ∧
          t'.baseRto = t.baseRto := by
  by_cases hrunning : t.running = true
  · by_cases hdue : t.rto ≤ ticks
    · by_cases hwindow : windowSize = 0
      · simp [tickHandle, Expires, hrunning, hdue, hwindow]
      · simp [tickHandle, Expires, hrunning, hdue, hwindow]
    · simp [tickHandle, Expires, hrunning, hdue]
  · simp [tickHandle, Expires, hrunning]

end Timer

namespace TCPSender

/-- `fill_window` leaves the numbers of the timer alone. -/
theorem fillLoop_counters (endSeqno fuel : ℕ) (s : TCPSender) :
    let t := (fillLoop endSeqno fuel s).timer
    t.consecutiveRetransmissions = s.timer.consecutiveRetransmissions ∧
      t.baseRto = s.timer.baseRto ∧ t.initialRto = s.timer.initialRto := by
  induction fuel generalizing s with
  | zero => exact ⟨rfl, rfl, rfl⟩
  | succ fuel ih =>
      rw [fillLoop]
      by_cases hcan : s.CanSend endSeqno
      · rw [if_pos hcan]
        have hrest := ih (s.sendSegment endSeqno)
        rw [sendSegment_eq hcan.1] at hrest ⊢
        exact hrest
      · rw [if_neg hcan]
        exact ⟨rfl, rfl, rfl⟩

/-- The acknowledgment is accepted and covers a whole outstanding segment. -/
def Covers (s : TCPSender) (ackno : WrappingInt32) : Prop :=
  s.Accepts ackno ∧
    ∃ entry ∈ s.timer.outstandings,
      entry.2 ≤ unwrap ackno s.isn s.nextSeqno

instance (s : TCPSender) (ackno : WrappingInt32) :
    Decidable (s.Covers ackno) :=
  inferInstanceAs (Decidable (_ ∧ _))

theorem not_uncovered_iff {s : TCPSender} {ackno : WrappingInt32} {tmp : ℕ}
    (htmp : unwrap ackno s.isn s.nextSeqno = tmp) (hle : tmp ≤ s.nextSeqno) :
    ¬Timer.Uncovered s.timer.outstandings tmp ↔ s.Covers ackno := by
  simp only [Timer.Uncovered, Covers, Accepts, htmp, hle, true_and,
    not_forall, Nat.not_lt, exists_prop]

/-- The base timeout is the initial one doubled `k` times, and so is the count
`k` while it is small. -/
structure Counting (s : TCPSender) (k : ℕ) : Prop extends Valid s where
  initial_lt : s.timer.initialRto < 2 ^ 16
  base : s.timer.baseRto = s.timer.initialRto * 2 ^ k % 2 ^ 32
  count : k < 16 → s.timer.consecutiveRetransmissions = k

/-- What leaves the numbers of the timer alone does not matter. -/
theorem Counting.congr {s s' : TCPSender} {k : ℕ} (h : s.Counting k)
    (hvalid : s'.Valid)
    (hcount : s'.timer.consecutiveRetransmissions =
      s.timer.consecutiveRetransmissions)
    (hbase : s'.timer.baseRto = s.timer.baseRto)
    (hinitial : s'.timer.initialRto = s.timer.initialRto) :
    s'.Counting k where
  toValid := hvalid
  initial_lt := hinitial ▸ h.initial_lt
  base := by rw [hbase, hinitial, h.base]
  count := by
    rw [hcount]
    exact h.count

theorem Counting.tick {s : TCPSender} {k : ℕ} (h : s.Counting k) (ms : ℕ) :
    (s.tick ms).Counting
      (if s.timer.Expires ms ∧ s.windowSize ≠ 0 then k + 1 else k) := by
  have hvalid := h.toValid.tick ms
  obtain ⟨hinitial, hnumbers⟩ :=
    s.timer.tickHandle_counters ms s.windowSize s.segmentsOut
  by_cases hexpires : s.timer.Expires ms ∧ s.windowSize ≠ 0
  · rw [if_pos hexpires] at hnumbers ⊢
    obtain ⟨hcount, hbase⟩ := hnumbers
    refine ⟨hvalid, ?_, ?_, ?_⟩
    · exact lt_of_eq_of_lt hinitial h.initial_lt
    · refine hbase.trans ?_
      change _ = (s.timer.tickHandle ms s.windowSize s.segmentsOut).1.initialRto
        * 2 ^ (k + 1) % 2 ^ 32
      rw [hinitial, h.base, Nat.mod_mul_mod, Nat.mul_assoc, ← Nat.pow_succ]
    · intro hk
      refine hcount.trans ?_
      rw [h.count (by omega)]
      omega
  · rw [if_neg hexpires] at hnumbers ⊢
    exact h.congr hvalid hnumbers.1 hnumbers.2 hinitial

/-- The base timeout is in step with the number of expirations after every
acknowledgment; the count is, unless the acknowledgment covers nothing while
expirations are counted. -/
theorem Counting.ackReceived {s : TCPSender} {k : ℕ} (h : s.Counting k)
    {ackno : WrappingInt32} (windowSize : UInt16)
    (hidle : s.Accepts ackno → s.Covers ackno ∨ k = 0 ∨ 16 ≤ k) :
    (s.ackReceived ackno windowSize).Counting
      (if s.Covers ackno then 0 else k) := by
  have hvalid := h.toValid.ackReceived ackno windowSize
  obtain ⟨tmp, htmp⟩ : ∃ tmp, unwrap ackno s.isn s.nextSeqno = tmp :=
    ⟨_, rfl⟩
  by_cases hle : tmp ≤ s.nextSeqno
  · have haccepts : s.Accepts ackno := by rwa [Accepts, htmp]
    have htimer : (s.ackReceived ackno windowSize).timer =
        (s.timer.ackHandle tmp).1 := by
      rw [ackReceived_of_le htmp hle]
    obtain ⟨hinitial, hcount, hbase⟩ := s.timer.ackHandle_counters tmp h.chain
    rw [← htimer] at hinitial hcount hbase
    by_cases hcovers : s.Covers ackno
    · rw [if_pos hcovers]
      refine ⟨hvalid, hinitial ▸ h.initial_lt, ?_, fun _ => hcount⟩
      have hlt := h.initial_lt
      rw [hbase ((not_uncovered_iff htmp hle).mpr hcovers), hinitial]
      omega
    · rw [if_neg hcovers]
      have huncovered : Timer.Uncovered s.timer.outstandings tmp :=
        not_not.mp (mt (not_uncovered_iff htmp hle).mp hcovers)
      rw [Timer.ackHandle_of_uncovered huncovered h.running] at htimer
      refine ⟨hvalid, hinitial ▸ h.initial_lt, ?_, ?_⟩
      · rw [htimer]
        exact h.base
      · intro hk
        rcases hidle haccepts with hyes | hzero | hlarge
        · exact absurd hyes hcovers
        · rw [hcount, hzero]
        · omega
  · have hcovers : ¬s.Covers ackno := by
      rintro ⟨haccepts, -⟩
      rw [Accepts, htmp] at haccepts
      exact hle haccepts
    rw [if_neg hcovers, ackReceived_of_lt htmp (Nat.not_le.mp hle)]
    exact h

namespace Session

/-- The expirations with an open window since an acknowledgment last covered a
whole outstanding segment. -/
def countExpirations (s : Session) (k : ℕ) : Op → ℕ
  | .tick ms =>
      if s.sender.timer.Expires ms ∧ s.sender.windowSize ≠ 0 then k + 1 else k
  | .ackReceived ackno _ => if s.sender.Covers ackno then 0 else k
  | .write _ | .endInput | .fillWindow | .sendEmptySegment | .transmit => k

/-- The retransmission count and the base timeout are in step with the number
of expirations. -/
def InStep (watched : Session × ℕ) : Prop :=
  watched.2 < 16 →
    watched.1.sender.consecutiveRetransmissions = watched.2 ∧
      watched.1.sender.timer.baseRto =
        watched.1.sender.timer.initialRto * 2 ^ watched.2

instance : DecidablePred InStep := fun watched =>
  inferInstanceAs (Decidable (watched.2 < 16 → _ ∧ _))

/-- No acknowledgment is accepted that covers no outstanding segment, while
between 1 and 15 expirations are counted. -/
def NoIdleAck (watched : Session × ℕ) : Op → Prop
  | .ackReceived ackno _ =>
      watched.1.sender.Accepts ackno → watched.1.sender.Covers ackno ∨
        watched.2 = 0 ∨ 16 ≤ watched.2
  | _ => True

theorem counting_step {s : Session} {k : ℕ} (h : s.sender.Counting k)
    {op : Op} (hguard : NoIdleAck (s, k) op) :
    (s.step op).sender.Counting (countExpirations s k op) := by
  have hvalid := valid_step h.toValid op
  cases op with
  | write data => exact h.congr hvalid rfl rfl rfl
  | endInput => exact h.congr hvalid rfl rfl rfl
  | fillWindow =>
      obtain ⟨hcount, hbase, hinitial⟩ := fillLoop_counters
        s.sender.endSeqno (s.sender.endSeqno - s.sender.nextSeqno) s.sender
      exact h.congr hvalid hcount hbase hinitial
  | ackReceived ackno windowSize => exact h.ackReceived windowSize hguard
  | tick ms => exact h.tick ms
  | sendEmptySegment => exact h.congr hvalid rfl rfl rfl
  | transmit => exact h.congr hvalid rfl rfl rfl

/-- An acknowledgment that covers nothing clears the count, but not the number
of expirations. -/
theorem not_inStep_of_idleAck {s : Session} {k : ℕ} (h : s.sender.Counting k)
    {op : Op} (hidle : ¬NoIdleAck (s, k) op) :
    ¬InStep (s.step op, countExpirations s k op) := by
  cases op with
  | ackReceived ackno windowSize =>
      simp only [NoIdleAck, not_forall, not_or, Nat.not_le] at hidle
      obtain ⟨haccepts, hcovers, hzero, hlt⟩ := hidle
      have hk : countExpirations s k (.ackReceived ackno windowSize) = k :=
        if_neg hcovers
      obtain ⟨tmp, htmp⟩ : ∃ tmp,
          unwrap ackno s.sender.isn s.sender.nextSeqno = tmp := ⟨_, rfl⟩
      have hle : tmp ≤ s.sender.nextSeqno := by
        rwa [Accepts, htmp] at haccepts
      obtain ⟨-, hcount, -⟩ :=
        s.sender.timer.ackHandle_counters tmp h.chain
      rw [hk]
      intro hstep
      have hsame := (hstep hlt).1
      rw [step_ackReceived, consecutiveRetransmissions,
        ackReceived_of_le htmp hle, hcount] at hsame
      exact hzero hsame.symm
  | write _ | endInput | fillWindow | tick _ | sendEmptySegment | transmit =>
      exact absurd trivial hidle

theorem inStep_of_counting {s : Session} {k : ℕ} (h : s.sender.Counting k) :
    InStep (s, k) := by
  intro hk
  refine ⟨h.count hk, h.base.trans (Nat.mod_eq_of_lt ?_)⟩
  have hinitial := h.initial_lt
  have hpow : 2 ^ k ≤ 2 ^ 15 := Nat.pow_le_pow_right (by decide) (by omega)
  calc s.sender.timer.initialRto * 2 ^ k
      ≤ s.sender.timer.initialRto * 2 ^ 15 := Nat.mul_le_mul_left _ hpow
    _ < 2 ^ 32 := by omega

theorem counting_new (capacity : ℕ) (retxTimeout : UInt16)
    (fixedIsn : Option WrappingInt32) (random : UInt32) :
    (TCPSender.new capacity retxTimeout fixedIsn random).Counting 0 where
  toValid := valid_new capacity retxTimeout fixedIsn random
  initial_lt := retxTimeout.toNat_lt
  base := by
    have hlt := retxTimeout.toNat_lt
    change retxTimeout.toNat = retxTimeout.toNat * 2 ^ 0 % 2 ^ 32
    omega
  count := fun _ => rfl

/-- **Backoff and count stay in step.**  In every state of a session in which
fewer than 16 expirations are counted, `consecutive_retransmissions()` is their
number and the base timeout is the initial one doubled as often, if and only if
no step of the session accepts an acknowledgment that covers no outstanding
segment while between 1 and 15 expirations are counted. -/
theorem inStep_iff_noIdleAck (capacity : ℕ) (retxTimeout : UInt16)
    (fixedIsn : Option WrappingInt32) (random : UInt32) (ops : List Op) :
    let start := (new capacity retxTimeout fixedIsn random, 0)
    EveryState (observe step countExpirations) start ops InStep ↔
      EveryStep (observe step countExpirations) start ops NoIdleAck := by
  intro start
  exact everyState_iff_everyStep
    (I := fun watched : Session × ℕ => watched.1.sender.Counting watched.2)
    (fun _ _ h hguard => counting_step h hguard)
    (fun _ h => inStep_of_counting h)
    (fun _ _ h hidle => not_inStep_of_idleAck h hidle)
    (counting_new capacity retxTimeout fixedIsn random)

/-- A byte is sent and retransmitted, and then the acknowledgment of the SYN
arrives once more. -/
def duplicateAck : List Op :=
  [.fillWindow, .ackReceived ⟨1⟩ 10, .write [7], .fillWindow, .tick 1000,
    .ackReceived ⟨1⟩ 10]

/-- After the duplicate acknowledgment one expiration is counted and the
timeout is doubled, but `consecutive_retransmissions()` is zero. -/
theorem not_inStep_duplicateAck :
    ¬EveryState (observe step countExpirations)
      (new 10 1000 (some ⟨0⟩) 0, 0) duplicateAck InStep := by
  decide +kernel

end Session
end TCPSender
end Sponge
