import Sponge.TCPSender.Progress
import Sponge.TCPSender.Session

/-!
# Properties that every operation of a sender keeps

Most properties of a sender survive all operations but a write, and do not look
at the queue of segments.  Such a property is called stable; one lemma carries
it through the steps of a session, and another one, in `TCPConnection.Endpoint`,
through those of a connection.
-/

namespace Sponge
namespace TCPSender

open Support

/-- A property of senders that every operation but a write keeps, and that does
not look at the queue of segments. -/
structure Stable (I : TCPSender → Prop) : Prop where
  queue : ∀ s q, I s → I { s with segmentsOut := q }
  fillWindow : ∀ s, I s → I s.fillWindow
  ackReceived : ∀ s ackno win, I s → I (s.ackReceived ackno win)
  tick : ∀ s ms, I s → I (s.tick ms)
  endInput : ∀ s, I s → I { s with stream := s.stream.endInput }
  setError : ∀ s, I s → I { s with stream := s.stream.setError }

theorem stable_valid : Stable Valid where
  queue := fun _ _ h => h.with_streams _ _
  fillWindow := by
    intro s h
    obtain ⟨segs, hfills, -⟩ := s.fillWindow_spec
    exact (h.fills hfills).1
  ackReceived := fun _ ackno win h => h.ackReceived ackno win
  tick := fun _ ms h => h.tick ms
  endInput := fun _ h => h.with_streams _ _
  setError := fun _ h => h.with_streams _ _

theorem stable_drained : Stable Drained where
  queue := fun _ _ h => h
  fillWindow := fun _ h => h.fillWindow
  ackReceived := by
    intro s ackno win h
    obtain ⟨-, hstream, hfin, -⟩ := s.ackReceived_unchanged ackno win
    rw [Drained, hstream, hfin]
    exact h
  tick := by
    intro s ms h
    obtain ⟨timer, again, heq, -⟩ := s.tick_spec ms
    rw [heq]
    exact h
  endInput := by
    intro s h hfin
    exact ByteStream.eof_iff.mpr ⟨rfl, (ByteStream.eof_iff.mp (h hfin)).2⟩
  setError := fun _ h => h

/-- The FIN is not sent before the SYN. -/
def FinAfterSyn (s : TCPSender) : Prop :=
  s.finSended = true → 0 < s.nextSeqno

theorem stable_finAfterSyn : Stable FinAfterSyn where
  queue := fun _ _ h => h
  fillWindow := by
    intro s h
    obtain ⟨segs, hfills, -⟩ := s.fillWindow_spec
    refine hfills.invariant ?_ h
    intro s₁ seg s₂ _ _ hemits _
    have hpos := hemits.pos
    rw [hemits.nextSeqno]
    omega
  ackReceived := by
    intro s ackno win h
    obtain ⟨hnext, -, hfin, -⟩ := s.ackReceived_unchanged ackno win
    rw [FinAfterSyn, hnext, hfin]
    exact h
  tick := by
    intro s ms h
    obtain ⟨timer, again, heq, -⟩ := s.tick_spec ms
    rw [heq]
    exact h
  endInput := fun _ h => h
  setError := fun _ h => h

namespace Session

/-- Nothing is written after `end_input`. -/
def NoLateWrite (s : Session) : Op → Prop
  | .write _ => s.sender.stream.inputEnded = false
  | _ => True

instance (s : Session) : (op : Op) → Decidable (s.NoLateWrite op)
  | .write _ =>
      inferInstanceAs (Decidable (s.sender.stream.inputEnded = false))
  | .endInput | .fillWindow | .ackReceived _ _ | .tick _
  | .sendEmptySegment | .transmit => .isTrue trivial

/-- A stable property holds of the sender after every operation, provided that
it survives the write when the operation is one. -/
theorem stable_step {I : TCPSender → Prop} (hI : Stable I) {s : Session}
    (h : I s.sender) {op : Op}
    (hwrite : ∀ data, op = .write data →
      I { s.sender with stream := (s.sender.stream.write data).1 }) :
    I (s.step op).sender := by
  cases op with
  | write data => exact hwrite data rfl
  | endInput => exact hI.endInput _ h
  | fillWindow => exact hI.fillWindow _ h
  | ackReceived ackno windowSize => exact hI.ackReceived _ ackno windowSize h
  | tick ms => exact hI.tick _ ms h
  | sendEmptySegment => exact hI.queue _ _ h
  | transmit => exact hI.queue _ _ h

theorem valid_step {s : Session} (h : s.sender.Valid) (op : Op) :
    (s.step op).sender.Valid :=
  stable_step stable_valid h fun _ _ => h.with_streams _ _

theorem finAfterSyn_step {s : Session} (h : s.sender.FinAfterSyn) (op : Op) :
    (s.step op).sender.FinAfterSyn :=
  stable_step stable_finAfterSyn h fun _ _ => h

theorem drained_step {s : Session} (h : s.sender.Drained) {op : Op}
    (hguard : s.NoLateWrite op) : (s.step op).sender.Drained := by
  refine stable_step stable_drained h ?_
  rintro data rfl
  exact h.write hguard data

theorem finAfterSyn_run (capacity : ℕ) (retxTimeout : UInt16)
    (fixedIsn : Option WrappingInt32) (random : UInt32) (ops : List Op) :
    (run capacity retxTimeout fixedIsn random ops).sender.FinAfterSyn := by
  refine foldl_invariant (I := fun s : Session => s.sender.FinAfterSyn)
    (fun _ op h => finAfterSyn_step h op) ops ?_
  intro hfin
  cases hfin

theorem drained_run (capacity : ℕ) (retxTimeout : UInt16)
    (fixedIsn : Option WrappingInt32) (random : UInt32) {ops : List Op}
    (hops : EveryStep step (new capacity retxTimeout fixedIsn random) ops
      NoLateWrite) :
    (run capacity retxTimeout fixedIsn random ops).sender.Drained := by
  refine hops.invariant (I := fun s : Session => s.sender.Drained)
    (fun _ _ h hguard => drained_step h hguard) ?_
  intro hfin
  cases hfin

end Session
end TCPSender
end Sponge
