import Sponge.StreamReassembler.Soundness

/-!
# Reassembly inside and outside the window

The window of a session ends `capacity` bytes after what was read.  As long as
nothing is pushed that reaches beyond it, nothing is ever cut off: the pending
and assembled bytes are exactly those that were pushed, and they fit into the
capacity.

The reassembler does not enforce the window itself.  It cuts an out-of-order
substring by the number of bytes it may still hold, not at the end of the
window, and the first out-of-order push beyond the window leaves a pending byte
that a full output stream has no room for.
-/

namespace Sponge
namespace StreamReassembler

open Support

namespace Session

/-- Every pending byte lies inside the window. -/
def PendingInWindow (capacity : ℕ) (s : Session) : Prop :=
  ∀ i, Covers s.reassembler.mp i → i < s.consumed.length + capacity

theorem pendingInWindow_new (capacity : ℕ) :
    (new capacity).PendingInWindow capacity := by
  intro i hi
  exact absurd hi (not_covers_nil i)

variable {capacity : ℕ} {s : Session}

/-- The bytes held never exceed the capacity while they lie in the window. -/
theorem Valid.held_le (h : s.Valid capacity)
    (hin : s.PendingInWindow capacity) :
    s.reassembler.unassembledBytes + s.reassembler.output.sz ≤ capacity := by
  have hroom := h.wellFormed.separated.total_lt hin
  have hu := h.wellFormed.unassembled
  have hnidx := h.nidx
  have hcap := h.wellFormed.capacity.trans h.capacity_eq
  have hle := s.reassembler.output.sz_le
  omega

theorem PendingInWindow.step_popOutput (hin : s.PendingInWindow capacity)
    (len : ℕ) :
    (s.step (.popOutput len)).PendingInWindow capacity := by
  intro i hi
  have := hin i hi
  rw [step_popOutput_consumed, List.length_append]
  omega

/-- The pushes after which the pending bytes still lie in the window: those at
or before the next index, the empty ones, those that end inside the window, and
all while the output is full, since nothing is stored then. -/
def Fits (capacity : ℕ) (s : Session) : Event → Prop
  | .push data index _ =>
      index ≤ s.reassembler.nidx ∨ data = [] ∨
        index + data.length ≤ s.consumed.length + capacity ∨
        s.reassembler.output.sz = capacity
  | _ => True

instance (capacity : ℕ) (s : Session) :
    (event : Event) → Decidable (s.Fits capacity event)
  | .push _ _ _ => inferInstanceAs (Decidable (_ ∨ _))
  | .read _ => inferInstanceAs (Decidable True)
  | .popOutput _ => inferInstanceAs (Decidable True)

/-- With a full output there is no room for a pending byte. -/
theorem storeSize_eq_zero (h : s.Valid capacity)
    (hin : s.PendingInWindow capacity)
    (hfull : s.reassembler.output.sz = capacity) {data : List UInt8}
    {index : ℕ} {m : Merge} {lower upper : List (ℕ × List UInt8)}
    (hm : Merged s.reassembler data index m lower upper) :
    s.reassembler.storeSize m = 0 := by
  have hheld := h.held_le hin
  have hu := h.wellFormed.unassembled
  have hle := hm.le
  have hcap := h.capacity_eq
  have hzero : m.unassembledBytes = 0 := by
    rw [hm.unassembled]
    omega
  unfold storeSize
  rw [hzero, subSize_of_le (Nat.zero_le _), ByteStream.bufferSize_eq,
    subSize_of_le (by omega)]
  omega

/-- What a merge leaves in the map lies in the window. -/
theorem PendingInWindow.of_merged (hin : s.PendingInWindow capacity)
    {data : List UInt8} {index : ℕ}
    {m : Merge} {lower upper : List (ℕ × List UInt8)}
    (hm : Merged s.reassembler data index m lower upper) {j : ℕ}
    (hj : Covers lower j ∨ Covers upper j) :
    j < s.consumed.length + capacity := by
  obtain ⟨f, hf, hrange⟩ := (covers_append lower upper j).mpr hj
  exact hin j ⟨f, hm.old f hf, hrange⟩

theorem PendingInWindow.step_push (hin : s.PendingInWindow capacity)
    (h : s.Valid capacity)
    {data : List UInt8} {index : ℕ} {eof : Bool}
    (hfits : s.Fits capacity (.push data index eof)) :
    (s.step (.push data index eof)).PendingInWindow capacity := by
  intro i hi
  simp only [step] at hi ⊢
  rcases Nat.lt_or_ge s.reassembler.nidx index with hindex | hindex
  · obtain ⟨m, lower, upper, -, hm, hmp⟩ :=
      mp_push_of_lt h.wellFormed data eof hindex
    rw [hmp] at hi
    by_cases hfull : s.reassembler.output.sz = capacity
    · rw [storeSize_eq_zero h hin hfull hm] at hi
      simp only [covers_append, covers_cons, List.take_zero,
        List.length_nil] at hi
      refine hin.of_merged hm ?_
      rcases hi with hi | hi | hi
      · exact Or.inl hi
      · omega
      · exact Or.inr hi
    · -- the positions of the merge were there before
      have hcovers := (hm.covers i).mp hi.of_take
      simp only [covers_cons] at hcovers
      rcases hcovers with hnew | hpending
      · rcases hfits with hle | rfl | hend | hsz
        · omega
        · simp only [List.length_nil] at hnew
          omega
        · omega
        · exact absurd hsz hfull
      · exact hin i hpending
  · -- in order: what is pending was pending before
    obtain ⟨w, hw⟩ := push_spec h.wellFormed data index eof
    obtain ⟨f, hf, hrange⟩ := hi
    exact hin i ⟨f, (hw.inOrder hindex).1.subset hf, hrange⟩

theorem PendingInWindow.step (hin : s.PendingInWindow capacity)
    (h : s.Valid capacity) {event : Event}
    (hfits : s.Fits capacity event) :
    (s.step event).PendingInWindow capacity := by
  cases event with
  | push data index eof => exact hin.step_push h hfits
  | read len =>
      rw [step_read]
      exact hin.step_popOutput len
  | popOutput len => exact hin.step_popOutput len

/-! ## The memory bound -/

/-- The bytes held fit into the capacity and the pending ones lie in the
window. -/
def WithinMemory (capacity : ℕ) (s : Session) : Prop :=
  s.reassembler.unassembledBytes + s.reassembler.output.bufferSize ≤
      capacity ∧
    s.PendingInWindow capacity

/-- The subtraction of an out-of-order push,
`_capacity - _unassembled_bytes - _output.buffer_size()`, does not go below
zero. -/
def NoUnderflow (s : Session) : Event → Prop
  | .push data index _ =>
      s.reassembler.nidx < index →
        ∀ m, s.reassembler.merge data index = some m →
          m.unassembledBytes + s.reassembler.output.bufferSize ≤
            s.reassembler.capacity
  | _ => True

theorem Valid.noUnderflow (h : s.Valid capacity)
    (hin : s.PendingInWindow capacity) (event : Event) :
    s.NoUnderflow event := by
  cases event with
  | push data index eof =>
      intro hindex m hm
      obtain ⟨m', lower, upper, hm', hspec⟩ :=
        merge_spec h.wellFormed data hindex
      obtain rfl : m = m' := Option.some.inj (hm.symm.trans hm')
      have hheld := h.held_le hin
      have hu := h.wellFormed.unassembled
      have hle := hspec.le
      have hcap := h.capacity_eq
      rw [hspec.unassembled, ByteStream.bufferSize_eq]
      omega
  | read len => trivial
  | popOutput len => trivial

/-- There is a gap before the merged substring. -/
theorem nidx_add_total_lt {r : StreamReassembler} {data : List UInt8}
    {index : ℕ} {m : Merge} {lower upper : List (ℕ × List UInt8)}
    (hm : Merged r data index m lower upper) :
    r.nidx + total lower < m.idx := by
  have hsep := hm.separated
  rw [separated_append] at hsep
  have hroom := hsep.1.total_lt (b := m.idx) ?_
  · have hidx := hsep.1.le_lastStop
    have := hsep.2.1
    dsimp only at this
    omega
  · rintro j ⟨f, hf, hj⟩
    have hpairs := (List.pairwise_append.mp hm.separated.pairwise).2.2
      f hf (m.idx, m.str) (by simp)
    dsimp only at hpairs
    omega

/-- A push that does not fit leaves a pending byte beyond the window. -/
theorem not_pendingInWindow_of_not_fits (h : s.Valid capacity)
    (hin : s.PendingInWindow capacity) {event : Event}
    (hnot : ¬s.Fits capacity event) :
    ¬(s.step event).PendingInWindow capacity := by
  cases event with
  | read len => exact absurd trivial hnot
  | popOutput len => exact absurd trivial hnot
  | push data index eof =>
      simp only [Fits, not_or, Nat.not_le] at hnot
      obtain ⟨hindex, hdata, hend, hfull⟩ := hnot
      obtain ⟨m, lower, upper, -, hm, hmp⟩ :=
        mp_push_of_lt h.wellFormed data eof hindex
      have hpos := List.length_pos_of_ne_nil hdata
      intro hafter
      simp only [PendingInWindow, step, hmp, covers_append, covers_cons,
        List.length_take] at hafter
      -- the last byte of the data lies beyond the window, so in the merge
      have hlast : Covers (lower ++ (m.idx, m.str) :: upper)
          (index + data.length - 1) :=
        (hm.covers _).mpr ((covers_cons _ _ _).mpr (Or.inl
          ⟨by dsimp only; omega, by dsimp only; omega⟩))
      simp only [covers_append, covers_cons] at hlast
      have hstr : m.idx ≤ index + data.length - 1 ∧
          index + data.length - 1 < m.idx + m.str.length := by
        rcases hlast with hl | hl | hl
        · have := hin.of_merged hm (Or.inl hl)
          omega
        · exact hl
        · have := hin.of_merged hm (Or.inr hl)
          omega
      -- nothing is pending behind it, and there is a gap before it
      have hlower := nidx_add_total_lt hm
      have hsep := hm.separated
      rw [separated_append] at hsep
      have hroom : s.reassembler.nidx + total lower <
          s.consumed.length + capacity ∨ total lower = 0 :=
        hsep.1.total_lt fun j hj => hin.of_merged hm (Or.inl hj)
      have hupper : total upper = 0 := by
        rcases hsep.2.2.total_lt (b := s.consumed.length + capacity)
          fun j hj => hin.of_merged hm (Or.inr hj) with hlt | hzero
        · dsimp only at hlt
          omega
        · exact hzero
      have hu : m.unassembledBytes = total lower + total upper := by
        rw [hm.unassembled, hm.mp, total_append]
      have hnidx := h.nidx
      have hcap := h.capacity_eq
      have hcap' := h.wellFormed.capacity.trans hcap
      have hle := s.reassembler.output.sz_le
      have hsize : s.reassembler.storeSize m =
          min (capacity - total lower - s.reassembler.output.sz)
            m.str.length := by
        unfold storeSize
        rw [ByteStream.bufferSize_eq, hcap, hu, hupper, Nat.add_zero,
          subSize_of_le (show total lower ≤ capacity by omega),
          subSize_of_le (by omega)]
      have hbad := hafter (m.idx + s.reassembler.storeSize m - 1)
        (Or.inr (Or.inl (by omega)))
      omega

/-- The memory bound holds exactly of the sessions whose pushes fit: the first
push that does not fit breaks it. -/
theorem everyState_withinMemory_iff (capacity : ℕ) (events : List Event) :
    (EveryState step (new capacity) events (WithinMemory capacity) ∧
        EveryStep step (new capacity) events NoUnderflow) ↔
      EveryStep step (new capacity) events (Fits capacity) := by
  have hiff : EveryState step (new capacity) events (WithinMemory capacity) ↔
      EveryStep step (new capacity) events (Fits capacity) := by
    apply everyState_iff_everyStep
      (I := fun s => s.Valid capacity ∧ s.PendingInWindow capacity)
    · rintro s event ⟨h, hin⟩ hfits
      exact ⟨h.step event, hin.step h hfits⟩
    · rintro s ⟨h, hin⟩
      exact ⟨h.held_le hin, hin⟩
    · rintro s event ⟨h, hin⟩ hnot hafter
      exact not_pendingInWindow_of_not_fits h hin hnot hafter.2
    · exact ⟨valid_new capacity, pendingInWindow_new capacity⟩
  refine ⟨fun hboth => hiff.mp hboth.1, fun hfits => ⟨hiff.mpr hfits, ?_⟩⟩
  intro done event hdone
  obtain ⟨h, hin⟩ := (hfits.restrict
    ((List.prefix_append done [event]).trans hdone)).invariant
    (I := fun s => s.Valid capacity ∧ s.PendingInWindow capacity)
    (fun s event hs hfit => ⟨hs.1.step event, hs.2.step hs.1 hfit⟩)
    ⟨valid_new capacity, pendingInWindow_new capacity⟩
  exact h.noUnderflow hin event

end Session
end StreamReassembler
end Sponge
