import Sponge.StreamReassembler.Session

/-!
# Soundness of reassembly

When every push carries a piece of one byte string `S`, the assembled bytes are
a prefix of `S`, everything pending is a piece of `S`, and the output ends
exactly at the end of `S`.  Pieces may overlap, repeat, and lie inside or
outside the capacity.
-/

namespace Sponge
namespace StreamReassembler

open Support

/-- The arguments of a push of `S[i..j)`; the end of the stream may be
announced only with the last byte. -/
def SliceOf (S data : List UInt8) (index : ℕ) (eof : Bool) : Prop :=
  ∃ i j, i ≤ j ∧ j ≤ S.length ∧ index = i ∧ data = (S.take j).drop i ∧
    (eof = true → j = S.length)

/-- Every push of the session carries a slice of `S`. -/
def PushesSlicesOf (S : List UInt8) (events : List Event) : Prop :=
  ∀ data index eof, Event.push data index eof ∈ events →
    SliceOf S data index eof

theorem SliceOf.isPrefix {S data : List UInt8} {index : ℕ} {eof : Bool}
    (h : SliceOf S data index eof) : data <+: S.drop index := by
  obtain ⟨i, j, hij, hj, rfl, rfl, -⟩ := h
  exact (List.take_prefix j S).drop _

theorem SliceOf.eof_length {S data : List UInt8} {index : ℕ}
    (h : SliceOf S data index true) : index + data.length = S.length := by
  obtain ⟨i, j, hij, hj, rfl, rfl, heof⟩ := h
  have := heof rfl
  simp only [List.length_drop, List.length_take]
  omega

namespace Session

/-- What is assembled and what is pending agrees with `S`. -/
structure Agrees (S : List UInt8) (s : Session) : Prop where
  assembled : s.assembled <+: S
  pieces : PiecesOf S s.reassembler.mp

/-- The session reassembles `S`: it agrees with `S`, and the announced end is
the end of `S`. -/
structure Reassembles (S : List UInt8) (s : Session) : Prop
    extends Agrees S s where
  eidx : s.reassembler.eof = true → s.reassembler.eidx = S.length
  ended : s.reassembler.output.inputEnded = true ↔
    s.reassembler.eof = true ∧ s.reassembler.nidx = S.length

theorem agrees_new (S : List UInt8) (capacity : ℕ) :
    (new capacity).Agrees S where
  assembled := List.nil_prefix
  pieces := by
    intro f hf
    cases hf

theorem Agrees.step_popOutput {S : List UInt8} {s : Session}
    (h : s.Agrees S) (len : ℕ) : (s.step (.popOutput len)).Agrees S where
  assembled := by
    rw [assembled_step_popOutput]
    exact h.assembled
  pieces := h.pieces

theorem Agrees.step_push {S : List UInt8} {s : Session} {capacity : ℕ}
    (h : s.Agrees S) (hs : s.Valid capacity) {data : List UInt8} {index : ℕ}
    (hdata : data <+: S.drop index) (eof : Bool) :
    (s.step (.push data index eof)).Agrees S := by
  obtain ⟨w, hw⟩ := push_spec hs.wellFormed data index eof
  have hpieces : PiecesOf S ((index, data) :: s.reassembler.mp) := by
    intro f hf
    rcases List.mem_cons.mp hf with rfl | hf
    · exact hdata
    · exact h.pieces f hf
  obtain ⟨hnew, hpending⟩ := hw.pieces S hpieces
  refine ⟨?_, hpending⟩
  have happend : s.assembled ++ w <+: S.drop 0 := by
    apply append_isPrefix_drop h.assembled
    rwa [Nat.zero_add, hs.length_assembled]
  simpa [Session.assembled, step, hw.contents] using happend

theorem Agrees.nidx_le {S : List UInt8} {s : Session} {capacity : ℕ}
    (h : s.Agrees S) (hs : s.Valid capacity) :
    s.reassembler.nidx ≤ S.length := by
  rw [← hs.length_assembled]
  exact h.assembled.length_le

theorem Agrees.assembled_eq {S : List UInt8} {s : Session} {capacity : ℕ}
    (h : s.Agrees S) (hs : s.Valid capacity) :
    s.assembled = S.take s.reassembler.nidx := by
  rw [← hs.length_assembled]
  exact List.prefix_iff_eq_take.mp h.assembled

theorem reassembles_new (S : List UInt8) (capacity : ℕ) :
    (new capacity).Reassembles S where
  toAgrees := agrees_new S capacity
  eidx := nofun
  ended := by simp [new, StreamReassembler.new]

theorem Reassembles.step_popOutput {S : List UInt8} {s : Session}
    (h : s.Reassembles S) (len : ℕ) :
    (s.step (.popOutput len)).Reassembles S where
  toAgrees := h.toAgrees.step_popOutput len
  eidx := h.eidx
  ended := h.ended

theorem Reassembles.step_push {S : List UInt8} {s : Session} {capacity : ℕ}
    (h : s.Reassembles S) (hs : s.Valid capacity)
    {data : List UInt8} {index : ℕ} {eof : Bool}
    (hdata : data <+: S.drop index)
    (heof : eof = true → index + data.length = S.length) :
    (s.step (.push data index eof)).Reassembles S := by
  have hagrees := h.toAgrees.step_push hs hdata eof
  have hle := hagrees.nidx_le (hs.step_push data index eof)
  obtain ⟨w, hw⟩ := push_spec hs.wellFormed data index eof
  have hmono := hw.nidx
  have heidx : (s.step (.push data index eof)).reassembler.eof = true →
      (s.step (.push data index eof)).reassembler.eidx = S.length := by
    intro hend
    simp only [step, hw.eof_eq, hw.eidx_eq] at hend ⊢
    cases eof with
    | true => exact heof rfl
    | false => exact h.eidx (by simpa using hend)
  refine ⟨hagrees, heidx, ?_⟩
  simp only [step] at hle heidx ⊢
  rw [hw.inputEnded_iff, h.ended]
  constructor
  · rintro (⟨hold, hnidx⟩ | ⟨hend, hnidx⟩)
    · exact ⟨by simp [hw.eof_eq, hold], by omega⟩
    · have := heidx hend
      exact ⟨hend, by omega⟩
  · rintro ⟨hend, hnidx⟩
    have := heidx hend
    exact Or.inr ⟨hend, by omega⟩

/-- A session keeps reassembling when the string it belongs to grows, as long
as the end was not announced. -/
theorem Reassembles.mono {S T : List UInt8} {s : Session}
    (h : s.Reassembles S) (hST : S <+: T)
    (heof : s.reassembler.eof = true → S = T) : s.Reassembles T where
  toAgrees := ⟨h.assembled.trans hST, h.pieces.mono hST⟩
  eidx := by
    intro hend
    rw [← heof hend]
    exact h.eidx hend
  ended := by
    rw [h.ended]
    constructor
    · rintro ⟨hend, hnidx⟩
      exact ⟨hend, by rw [← heof hend, hnidx]⟩
    · rintro ⟨hend, hnidx⟩
      exact ⟨hend, by rw [heof hend, hnidx]⟩

theorem reassembles_run {S : List UInt8} {events : List Event}
    (hevents : PushesSlicesOf S events) (capacity : ℕ) :
    (run capacity events).Reassembles S := by
  have hsteps : EveryStep step (new capacity) events fun _ event =>
      ∀ data index eof, event = .push data index eof →
        SliceOf S data index eof := by
    refine everyStep_iff_forall_mem.mpr ?_
    rintro event hmem data index eof rfl
    exact hevents data index eof hmem
  refine (hsteps.invariant (I := fun s =>
    s.Valid capacity ∧ s.Reassembles S) ?_
    ⟨valid_new capacity, reassembles_new S capacity⟩).2
  rintro s event ⟨hs, h⟩ hslice
  refine ⟨hs.step event, ?_⟩
  cases event with
  | push data index eof =>
      have hpush := hslice data index eof rfl
      refine h.step_push hs hpush.isPrefix ?_
      rintro rfl
      exact hpush.eof_length
  | read len =>
      rw [step_read]
      exact h.step_popOutput len
  | popOutput len => exact h.step_popOutput len

/-- **Soundness.**  In every session whose pushes carry slices of `S`, the
bytes read and buffered are the first `next_idx()` bytes of `S`; every pending
entry is the slice of `S` at its key, lies beyond the next index and is
disjoint from the other entries; no `substr` of a further push is out of range;
and the output has ended exactly when the end was announced and all of `S` is
assembled. -/
theorem reassembly_sound (S : List UInt8) (capacity : ℕ)
    {events : List Event} (hevents : PushesSlicesOf S events) :
    let s := run capacity events
    let r := s.reassembler
    s.consumed ++ r.output.contents = S.take r.nextIdx ∧
      r.nextIdx ≤ S.length ∧
      (∀ k str, (k, str) ∈ r.mp →
        str = (S.drop k).take str.length ∧ r.nextIdx < k) ∧
      r.mp.Pairwise (fun f g => ∀ i,
        ¬((f.1 ≤ i ∧ i < f.1 + f.2.length) ∧
          (g.1 ≤ i ∧ i < g.1 + g.2.length))) ∧
      (∀ data index eof, SliceOf S data index eof →
        r.pushSubstring data index eof ≠ none) ∧
      (r.output.inputEnded = true ↔
        (∃ data index, Event.push data index true ∈ events) ∧
          r.nextIdx = S.length) := by
  intro s r
  have hs : s.Valid capacity := valid_run capacity events
  have h : s.Reassembles S := reassembles_run hevents capacity
  refine ⟨?_, h.nidx_le hs, ?_, ?_, ?_, ?_⟩
  · exact h.assembled_eq hs
  · intro k str hmem
    exact ⟨List.prefix_iff_eq_take.mp (h.pieces (k, str) hmem),
      hs.wellFormed.separated.lt_key hmem⟩
  · refine hs.wellFormed.separated.pairwise.imp ?_
    intro f g hfg i hi
    omega
  · intro data index eof _
    exact Option.isSome_iff_ne_none.mp (r.pushSubstring_isSome data index eof)
  · rw [← eof_run capacity events]
    exact h.ended

/-- Overlapping pieces of a five-byte string, the last one first, with a read
in between. -/
theorem reassembly_sound_overlapping :
    let events : List Event := [.push [4, 5] 3 true, .push [1, 2] 0 false,
      .read 1, .push [2, 3, 4] 1 false]
    PushesSlicesOf [1, 2, 3, 4, 5] events ∧
      (run 8 events).reassembler.output.inputEnded = true := by
  intro events
  have hevents : PushesSlicesOf [1, 2, 3, 4, 5] events := by
    intro data index eof hmem
    simp only [events, List.mem_cons, List.not_mem_nil, or_false,
      reduceCtorEq, false_or, Event.push.injEq] at hmem
    rcases hmem with ⟨rfl, rfl, rfl⟩ | ⟨rfl, rfl, rfl⟩ | ⟨rfl, rfl, rfl⟩
    · exact ⟨3, 5, by decide, by decide, rfl, rfl, fun _ => rfl⟩
    · exact ⟨0, 2, by decide, by decide, rfl, rfl, nofun⟩
    · exact ⟨1, 4, by decide, by decide, rfl, rfl, nofun⟩
  refine ⟨hevents, ?_⟩
  obtain ⟨-, -, -, -, -, hended⟩ := reassembly_sound [1, 2, 3, 4, 5] 8 hevents
  exact hended.mpr ⟨⟨[4, 5], 3, by simp [events]⟩, by decide⟩

end Session
end StreamReassembler
end Sponge
