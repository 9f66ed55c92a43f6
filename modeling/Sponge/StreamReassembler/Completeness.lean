import Sponge.StreamReassembler.Window

/-!
# Completeness of reassembly inside the window

When every push carries a slice of `S` that ends inside the window, the session
holds exactly the positions that were pushed.  The next index is the length of
the longest prefix of `S` that was pushed, the count of pending bytes is the
number of positions pushed beyond it, and neither depends on how the positions
were divided into pushes.
-/

namespace Sponge
namespace StreamReassembler

open Support

/-- Some push carried the byte with stream index `i`. -/
def PushedIndex (events : List Event) (i : ℕ) : Prop :=
  ∃ data index eof, Event.push data index eof ∈ events ∧
    index ≤ i ∧ i < index + data.length

theorem not_pushedIndex_nil (i : ℕ) : ¬PushedIndex [] i := by
  rintro ⟨data, index, eof, hmem, -⟩
  simp at hmem

theorem pushedIndex_append_push (done : List Event) (data : List UInt8)
    (index : ℕ) (eof : Bool) (i : ℕ) :
    PushedIndex (done ++ [.push data index eof]) i ↔
      (index ≤ i ∧ i < index + data.length) ∨ PushedIndex done i := by
  constructor
  · rintro ⟨data', index', eof', hmem, hi⟩
    rcases List.mem_append.mp hmem with hmem | hmem
    · exact Or.inr ⟨data', index', eof', hmem, hi⟩
    · cases List.mem_singleton.mp hmem
      exact Or.inl hi
  · rintro (hi | ⟨data', index', eof', hmem, hi⟩)
    · exact ⟨data, index, eof, by simp, hi⟩
    · exact ⟨data', index', eof', by simp [hmem], hi⟩

theorem pushedIndex_append_of_ne_push {event : Event}
    (hevent : ∀ data index eof, event ≠ .push data index eof)
    (done : List Event) (i : ℕ) :
    PushedIndex (done ++ [event]) i ↔ PushedIndex done i := by
  constructor
  · rintro ⟨data, index, eof, hmem, hi⟩
    rcases List.mem_append.mp hmem with hmem | hmem
    · exact ⟨data, index, eof, hmem, hi⟩
    · exact absurd (List.mem_singleton.mp hmem).symm (hevent data index eof)
  · rintro ⟨data, index, eof, hmem, hi⟩
    exact ⟨data, index, eof, by simp [hmem], hi⟩

namespace Session

/-- The pushed bytes are a slice of `S` that ends inside the window. -/
def PushesInWindow (S : List UInt8) (capacity : ℕ) (s : Session) :
    Event → Prop
  | .push data index _ =>
      SliceOf S data index false ∧
        index + data.length ≤ s.consumed.length + capacity
  | _ => True

/-- What holds after the events `done` when all of them were slices inside the
window: everything pushed is held, and nothing else. -/
structure Holds (S : List UInt8) (capacity : ℕ) (done : List Event)
    (s : Session) : Prop where
  valid : s.Valid capacity
  agrees : s.Agrees S
  inWindow : s.PendingInWindow capacity
  held_iff : ∀ i, i < s.reassembler.nidx ∨ Covers s.reassembler.mp i ↔
    PushedIndex done i

theorem holds_new (S : List UInt8) (capacity : ℕ) :
    (new capacity).Holds S capacity [] where
  valid := valid_new capacity
  agrees := agrees_new S capacity
  inWindow := pendingInWindow_new capacity
  held_iff := by
    intro i
    simp [new, StreamReassembler.new, not_pushedIndex_nil]

theorem Holds.step_popOutput {S : List UInt8} {capacity : ℕ}
    {done : List Event} {s : Session} (h : s.Holds S capacity done)
    (len : ℕ) :
    (s.step (.popOutput len)).Holds S capacity (done ++ [.popOutput len]) where
  valid := h.valid.step_popOutput len
  agrees := h.agrees.step_popOutput len
  inWindow := h.inWindow.step_popOutput len
  held_iff := by
    intro i
    rw [pushedIndex_append_of_ne_push (by simp)]
    exact h.held_iff i

theorem Holds.step_push {S : List UInt8} {capacity : ℕ}
    {done : List Event} {s : Session} (h : s.Holds S capacity done)
    {data : List UInt8} {index : ℕ} {eof : Bool}
    (hguard : s.PushesInWindow S capacity (.push data index eof)) :
    (s.step (.push data index eof)).Holds S capacity
      (done ++ [.push data index eof]) := by
  obtain ⟨hslice, hend⟩ := hguard
  obtain ⟨w, hw⟩ := push_spec h.valid.wellFormed data index eof
  have hmono := hw.nidx
  have hin : ∀ i, Covers ((index, data) :: s.reassembler.mp) i →
      i < s.reassembler.windowEnd := by
    intro i hi
    rw [h.valid.windowEnd]
    rcases (covers_cons _ _ _).mp hi with hi | hi
    · dsimp only at hi
      omega
    · exact h.inWindow i hi
  refine ⟨h.valid.step_push data index eof,
    h.agrees.step_push h.valid hslice.isPrefix eof,
    h.inWindow.step_push h.valid (Or.inr (Or.inr (Or.inl hend))), ?_⟩
  intro i
  rw [pushedIndex_append_push, ← h.held_iff i]
  simp only [step]
  constructor
  · intro hi
    rcases hw.covered i hi with hi | hi
    · exact Or.inr (Or.inl hi)
    · rcases (covers_cons _ _ _).mp hi with hi | hi
      · exact Or.inl hi
      · exact Or.inr (Or.inr hi)
  · rintro (hi | hi | hi)
    · exact hw.complete hin i ((covers_cons _ _ _).mpr (Or.inl hi))
    · exact Or.inl (by omega)
    · exact hw.complete hin i ((covers_cons _ _ _).mpr (Or.inr hi))

theorem holds_run {S : List UInt8} {capacity : ℕ} {events : List Event}
    (hevents : EveryStep step (new capacity) events
      (PushesInWindow S capacity)) :
    (run capacity events).Holds S capacity events := by
  refine hevents.history ?_ (holds_new S capacity)
  intro done s event h hguard
  cases event with
  | push data index eof => exact h.step_push hguard
  | read len =>
      rw [step_read]
      obtain ⟨hvalid, hagrees, hin, hheld⟩ := h.step_popOutput len
      refine ⟨hvalid, hagrees, hin, ?_⟩
      intro i
      rw [hheld, pushedIndex_append_of_ne_push (by simp),
        pushedIndex_append_of_ne_push (by simp)]
  | popOutput len => exact h.step_popOutput len

/-- The next index is the length of the longest pushed prefix of `S`. -/
theorem Holds.isGreatest {S : List UInt8} {capacity : ℕ}
    {done : List Event} {s : Session} (h : s.Holds S capacity done) :
    IsGreatest {n | n ≤ S.length ∧ ∀ i < n, PushedIndex done i}
      s.reassembler.nidx := by
  constructor
  · refine ⟨h.agrees.nidx_le h.valid, ?_⟩
    intro i hi
    exact (h.held_iff i).mp (Or.inl hi)
  · rintro n ⟨-, hn⟩
    by_contra hlt
    rcases (h.held_iff _).mpr (hn _ (Nat.lt_of_not_le hlt)) with hi | hi
    · exact lt_irrefl _ hi
    · exact lt_irrefl _ (h.valid.wellFormed.separated.lt_of_covers hi)

/-- The pending positions are those pushed from the next index on. -/
theorem Holds.covers_iff {S : List UInt8} {capacity : ℕ}
    {done : List Event} {s : Session} (h : s.Holds S capacity done) (i : ℕ) :
    Covers s.reassembler.mp i ↔
      s.reassembler.nidx ≤ i ∧ PushedIndex done i := by
  rw [← h.held_iff i]
  constructor
  · intro hi
    exact ⟨(h.valid.wellFormed.separated.lt_of_covers hi).le, Or.inr hi⟩
  · rintro ⟨hle, hi | hi⟩
    · omega
    · exact hi

theorem Holds.encard {S : List UInt8} {capacity : ℕ}
    {done : List Event} {s : Session} (h : s.Holds S capacity done) :
    {i | s.reassembler.nidx ≤ i ∧ PushedIndex done i}.encard =
      s.reassembler.unassembledBytes := by
  obtain ⟨hfinite, hcard⟩ := h.valid.wellFormed.separated.ncard_covers
  have hset : {i | Covers s.reassembler.mp i} =
      {i | s.reassembler.nidx ≤ i ∧ PushedIndex done i} :=
    Set.ext h.covers_iff
  rw [← hset, ← hfinite.cast_ncard_eq, hcard, h.valid.wellFormed.unassembled]

/-- **Completeness.**  In every session whose pushes carry slices of `S` that
end inside the window, `next_idx()` is the length of the longest prefix of `S`
all of whose indices were pushed, `unassembled_bytes()` is the number of indices
from there on that were pushed, and what is held fits into the capacity.  Both
numbers and the assembled bytes depend on the set of pushed indices only. -/
theorem reassembly_complete (S : List UInt8) (capacity : ℕ)
    {events : List Event}
    (hevents : EveryStep step (new capacity) events
      (PushesInWindow S capacity)) :
    let s := run capacity events
    let r := s.reassembler
    IsGreatest {n | n ≤ S.length ∧ ∀ i < n, PushedIndex events i} r.nextIdx ∧
      {i | r.nextIdx ≤ i ∧ PushedIndex events i}.encard =
        r.unassembledBytes ∧
      r.unassembledBytes + r.output.bufferSize ≤ capacity ∧
      ∀ capacity' events',
        EveryStep step (new capacity') events' (PushesInWindow S capacity') →
        (∀ i, PushedIndex events' i ↔ PushedIndex events i) →
        (run capacity' events').reassembler.nextIdx = r.nextIdx ∧
        (run capacity' events').reassembler.unassembledBytes =
          r.unassembledBytes ∧
        (run capacity' events').assembled = s.assembled := by
  intro s r
  have h : s.Holds S capacity events := holds_run hevents
  refine ⟨h.isGreatest, h.encard, h.valid.held_le h.inWindow, ?_⟩
  intro capacity' events' hevents' hsame
  have h' := holds_run hevents'
  have hnidx : (run capacity' events').reassembler.nidx = r.nidx := by
    refine h'.isGreatest.unique ?_
    simp only [hsame]
    exact h.isGreatest
  refine ⟨hnidx, ?_, ?_⟩
  · have hcard := h'.encard
    simp only [hsame, hnidx] at hcard
    rw [h.encard] at hcard
    exact (ENat.natCast_inj.mp hcard).symm
  · rw [h'.agrees.assembled_eq h'.valid, h.agrees.assembled_eq h.valid, hnidx]

/-- The last byte, then the first two, then all of a three-byte string through
a window of three bytes. -/
theorem reassembly_complete_repeated :
    let events : List Event :=
      [.push [3] 2 false, .push [1, 2] 0 false, .push [1, 2, 3] 0 true]
    EveryStep step (new 3) events (PushesInWindow [1, 2, 3] 3) ∧
      IsGreatest {n | n ≤ 3 ∧ ∀ i < n, PushedIndex events i} 3 := by
  intro events
  have hevents :
      EveryStep step (new 3) events (PushesInWindow [1, 2, 3] 3) := by
    refine everyStep_cons.mpr ⟨⟨?_, by decide⟩, everyStep_cons.mpr
      ⟨⟨?_, by decide⟩, everyStep_cons.mpr ⟨⟨?_, by decide⟩,
        everyStep_nil⟩⟩⟩
    · exact ⟨2, 3, by decide, by decide, rfl, rfl, nofun⟩
    · exact ⟨0, 2, by decide, by decide, rfl, rfl, nofun⟩
    · exact ⟨0, 3, by decide, by decide, rfl, rfl, nofun⟩
  exact ⟨hevents, (reassembly_complete [1, 2, 3] 3 hevents).1⟩

end Session
end StreamReassembler
end Sponge
