import Sponge.StreamReassembler.Push
import Sponge.Support.Runs

/-!
# Sessions of a reassembler

A session is a reassembler together with the bytes that its reader has taken
from the output stream so far.  Its events are the pushes and the two ways of
taking bytes.  This module collects what holds in every session, whatever is
pushed.
-/

namespace Sponge
namespace StreamReassembler

open Support

inductive Event where
  | push (data : List UInt8) (index : ℕ) (eof : Bool)
  | read (len : ℕ)
  | popOutput (len : ℕ)
deriving DecidableEq

/-- A reassembler and the bytes read or popped from its output so far. -/
structure Session where
  reassembler : StreamReassembler
  consumed : List UInt8
deriving DecidableEq

namespace Session

def new (capacity : ℕ) : Session where
  reassembler := .new capacity
  consumed := []

def step (s : Session) : Event → Session
  | .push data index eof =>
      { s with reassembler := s.reassembler.push data index eof }
  | .read len =>
      let (output, bytes) := s.reassembler.output.read len
      { reassembler := { s.reassembler with output }
        consumed := s.consumed ++ bytes }
  | .popOutput len =>
      { reassembler :=
          { s.reassembler with output := s.reassembler.output.popOutput len }
        consumed := s.consumed ++ s.reassembler.output.peekOutput len }

def run (capacity : ℕ) (events : List Event) : Session :=
  events.foldl step (new capacity)

/-- All bytes that the output stream has accepted. -/
def assembled (s : Session) : List UInt8 :=
  s.consumed ++ s.reassembler.output.contents

/-- What holds in every session. -/
structure Valid (capacity : ℕ) (s : Session) : Prop where
  wellFormed : s.reassembler.WellFormed
  capacity_eq : s.reassembler.capacity = capacity
  nidx : s.reassembler.nidx = s.consumed.length + s.reassembler.output.sz

theorem valid_new (capacity : ℕ) : (new capacity).Valid capacity where
  wellFormed := wellFormed_new capacity
  capacity_eq := rfl
  nidx := rfl

theorem Valid.length_assembled {capacity : ℕ} {s : Session}
    (h : s.Valid capacity) : s.assembled.length = s.reassembler.nidx := by
  rw [assembled, List.length_append, ByteStream.length_contents, h.nidx]

/-- The window ends `capacity` bytes after what was read. -/
theorem Valid.windowEnd {capacity : ℕ} {s : Session} (h : s.Valid capacity) :
    s.reassembler.windowEnd = s.consumed.length + capacity := by
  have hnidx := h.nidx
  have hcap := h.wellFormed.capacity.trans h.capacity_eq
  have hle := s.reassembler.output.sz_le
  unfold StreamReassembler.windowEnd
  omega

/-! ## Taking bytes -/

/-- Both ways of taking bytes leave the same session. -/
theorem step_read (s : Session) (len : ℕ) :
    s.step (.read len) = s.step (.popOutput len) := by
  simp [step, ByteStream.read_eq]

theorem step_popOutput_consumed (s : Session) (len : ℕ) :
    (s.step (.popOutput len)).consumed =
      s.consumed ++ s.reassembler.output.contents.take len := by
  simp [step]

/-- Taking bytes does not change what was assembled. -/
theorem assembled_step_popOutput (s : Session) (len : ℕ) :
    (s.step (.popOutput len)).assembled = s.assembled := by
  simp only [assembled, step_popOutput_consumed, List.append_assoc]
  simp [step]

theorem Valid.step_popOutput {capacity : ℕ} {s : Session}
    (h : s.Valid capacity) (len : ℕ) :
    (s.step (.popOutput len)).Valid capacity where
  wellFormed := by
    obtain ⟨hsep, hu, hcap⟩ := h.wellFormed
    exact ⟨hsep, hu, hcap⟩
  capacity_eq := h.capacity_eq
  nidx := by
    have hnidx := h.nidx
    rw [step_popOutput_consumed]
    simp only [step, ByteStream.sz_popOutput, List.length_append,
      List.length_take, ByteStream.length_contents]
    omega

/-! ## Pushing -/

theorem Valid.step_push {capacity : ℕ} {s : Session} (h : s.Valid capacity)
    (data : List UInt8) (index : ℕ) (eof : Bool) :
    (s.step (.push data index eof)).Valid capacity := by
  obtain ⟨w, hw⟩ := push_spec h.wellFormed data index eof
  have hnidx := h.nidx
  have hsz := hw.sz
  have hnidx' := hw.nidx
  refine ⟨hw.wellFormed, hw.capacity.trans h.capacity_eq, ?_⟩
  simp only [step]
  omega

theorem Valid.step {capacity : ℕ} {s : Session} (h : s.Valid capacity)
    (event : Event) : (s.step event).Valid capacity := by
  cases event with
  | push data index eof => exact h.step_push data index eof
  | read len =>
      rw [step_read]
      exact h.step_popOutput len
  | popOutput len => exact h.step_popOutput len

theorem valid_run (capacity : ℕ) (events : List Event) :
    (run capacity events).Valid capacity :=
  foldl_invariant (fun _ event hs => hs.step event) events
    (valid_new capacity)

/-- The end of the stream was announced exactly when some push carried it. -/
theorem eof_run (capacity : ℕ) (events : List Event) :
    (run capacity events).reassembler.eof = true ↔
      ∃ data index, Event.push data index true ∈ events := by
  have hrun : EveryStep Session.step (new capacity) events
      fun _ _ => True := fun _ _ _ => trivial
  refine (hrun.history (I := fun done s => s.Valid capacity ∧
    (s.reassembler.eof = true ↔
      ∃ data index, Event.push data index true ∈ done)) ?_ ?_).2
  · rintro done s event ⟨hs, heof⟩ -
    refine ⟨hs.step event, ?_⟩
    cases event with
    | push data index eof =>
        obtain ⟨w, hw⟩ := push_spec hs.wellFormed data index eof
        have heq := hw.eof_eq
        simp only [Session.step, heq, Bool.or_eq_true, heof,
          List.mem_append, List.mem_singleton]
        constructor
        · rintro (⟨d, i, hmem⟩ | rfl)
          · exact ⟨d, i, Or.inl hmem⟩
          · exact ⟨data, index, Or.inr rfl⟩
        · rintro ⟨d, i, hmem | hmem⟩
          · exact Or.inl ⟨d, i, hmem⟩
          · cases hmem
            exact Or.inr rfl
    | read len => simpa [Session.step] using heof
    | popOutput len => simpa [Session.step] using heof
  · exact ⟨valid_new capacity, by simp [new, StreamReassembler.new]⟩

end Session
end StreamReassembler
end Sponge
