import Sponge.StreamReassembler.Model

/-!
# What one push does

The specification of `push_substring`, for pushes of arbitrary data.  The
pending map stays separated and the byte count stays the number of pending
bytes.  A push is described by the fragments it starts from, the pending ones
and the new one, and by what becomes of them: bytes that are written to the
output in order, fragments that stay pending, and bytes that are dropped, which
happens only to bytes beyond the end of the window.
-/

namespace Sponge
namespace StreamReassembler

open Support

/-- The relations between the fields that every push keeps. -/
structure WellFormed (r : StreamReassembler) : Prop where
  separated : Separated r.nidx r.mp
  unassembled : r.unassembledBytes = total r.mp
  capacity : r.output.capacity = r.capacity

/-- The first stream index for which there is no room: the next index plus what
the output can still take, or, counted from the other end, the number of bytes
read so far plus the capacity. -/
def windowEnd (r : StreamReassembler) : ℕ :=
  r.nidx + (r.output.capacity - r.output.sz)

theorem wellFormed_new (capacity : ℕ) : (new capacity).WellFormed where
  separated := trivial
  unassembled := rfl
  capacity := rfl

/-- The output of `r'` is that of `r` after the bytes `w` were written to it. -/
structure Writes (r r' : StreamReassembler) (w : List UInt8) : Prop where
  contents : r'.output.contents = r.output.contents ++ w
  nidx : r'.nidx = r.nidx + w.length
  capacity : r'.capacity = r.capacity
  outputCapacity : r'.output.capacity = r.output.capacity

/-- `r'` differs from `r` in the output, which took `w`, and in the map. -/
structure Advance (r r' : StreamReassembler) (w : List UInt8) : Prop
    extends Writes r r' w where
  inputEnded : r'.output.inputEnded = r.output.inputEnded
  eof : r'.eof = r.eof
  eidx : r'.eidx = r.eidx

theorem Writes.sz {r r' : StreamReassembler} {w : List UInt8}
    (h : Writes r r' w) : r'.output.sz = r.output.sz + w.length := by
  have hlength := congrArg List.length h.contents
  simpa using hlength

/-- Writing to the output moves the next index but not the window. -/
theorem Writes.windowEnd {r r' : StreamReassembler} {w : List UInt8}
    (h : Writes r r' w) : r'.windowEnd = r.windowEnd := by
  have hsz := h.sz
  have hnidx := h.nidx
  have hcap := h.outputCapacity
  have hle := r'.output.sz_le
  unfold StreamReassembler.windowEnd
  omega

theorem Advance.trans {r r₁ r₂ : StreamReassembler} {w₁ w₂ : List UInt8}
    (h₁ : Advance r r₁ w₁) (h₂ : Advance r₁ r₂ w₂) :
    Advance r r₂ (w₁ ++ w₂) where
  contents := by rw [h₂.contents, h₁.contents, List.append_assoc]
  nidx := by rw [h₂.nidx, h₁.nidx, List.length_append, Nat.add_assoc]
  capacity := h₂.capacity.trans h₁.capacity
  outputCapacity := h₂.outputCapacity.trans h₁.outputCapacity
  inputEnded := h₂.inputEnded.trans h₁.inputEnded
  eof := h₂.eof.trans h₁.eof
  eidx := h₂.eidx.trans h₁.eidx

/-- Nothing is written when only the map and the byte count change. -/
theorem advance_of_pending (r : StreamReassembler)
    (mp : List (ℕ × List UInt8)) (u : ℕ) :
    Advance r { r with mp := mp, unassembledBytes := u } [] := by
  refine ⟨⟨?_, rfl, rfl, rfl⟩, rfl, rfl, rfl⟩
  simp

/-! ## The in-order branch -/

/-- Assembling one substring writes a piece of it, up to its end or the end of
the window. -/
theorem assemble_spec {r : StreamReassembler} {first : ℕ}
    {second : List UInt8} (hfirst : first ≤ r.nidx)
    (hsecond : r.nidx - first < second.length) :
    ∃ r' w, r.assemble first second = some r' ∧ Advance r r' w ∧
      r'.mp = r.mp ∧ r'.unassembledBytes = r.unassembledBytes ∧
      w <+: second.drop (r.nidx - first) ∧
      r'.nidx = min (first + second.length) r.windowEnd := by
  refine ⟨_, r.output.accepted (second.drop (r.nidx - first)),
    assemble_eq hsecond, ?_, rfl, rfl, ByteStream.accepted_isPrefix _ _, ?_⟩
  · refine ⟨⟨?_, rfl, rfl, ?_⟩, ?_, rfl, rfl⟩ <;> simp
  · simp only [ByteStream.length_accepted, List.length_drop, windowEnd]
    omega

/-- The same for an entry of the map, which may hold nothing new. -/
theorem assembleEntry_spec {r : StreamReassembler} {first : ℕ}
    (second : List UInt8) (hfirst : first ≤ r.nidx) :
    ∃ r' w, r.assembleEntry first second = some r' ∧ Advance r r' w ∧
      r'.unassembledBytes = subSize r.unassembledBytes second.length ∧
      w <+: second.drop (r.nidx - first) ∧
      min (first + second.length) r.windowEnd ≤ r'.nidx := by
  by_cases hsecond : r.nidx - first < second.length
  · obtain ⟨r₁, w, hr₁, hadv, -, hu, hpiece, hend⟩ :=
      assemble_spec hfirst hsecond
    refine ⟨{ r₁ with
      unassembledBytes := subSize r₁.unassembledBytes second.length }, w,
      by simp [assembleEntry, hsecond, hr₁], ?_, by rw [hu], hpiece, ?_⟩
    · obtain ⟨⟨h₁, h₂, h₃, h₄⟩, h₅, h₆, h₇⟩ := hadv
      exact ⟨⟨h₁, h₂, h₃, h₄⟩, h₅, h₆, h₇⟩
    · exact hend.ge
  · refine ⟨{ r with
      unassembledBytes := subSize r.unassembledBytes second.length }, [],
      by simp [assembleEntry, hsecond], r.advance_of_pending _ _, rfl,
      List.nil_prefix, ?_⟩
    · dsimp only
      omega

/-- The result of the loop over the pending fragments `m`. -/
structure AssembledPending (r : StreamReassembler)
    (m : List (ℕ × List UInt8)) (r' : StreamReassembler)
    (w : List UInt8) : Prop extends Advance r r' w where
  separated : Separated r'.nidx r'.mp
  suffix : r'.mp <:+ m
  unassembled :
    r'.unassembledBytes + total m = r.unassembledBytes + total r'.mp
  covered : ∀ i, r.nidx ≤ i → i < r'.nidx → Covers m i
  pieces : ∀ S, PiecesOf S m → w <+: S.drop r.nidx
  complete : (∀ i, Covers m i → i < r.windowEnd) →
    ∀ i, Covers m i → i < r'.nidx ∨ Covers r'.mp i

section AssembledPending

variable {r r₁ r' : StreamReassembler} {first : ℕ}
  {second w₁ w : List UInt8} {rest : List (ℕ × List UInt8)}

/-! One substring was assembled, which led from `r` to `r₁`, and then the pending
fragments. -/

theorem AssembledPending.covered_cons (h : AssembledPending r₁ rest r' w)
    (hfirst : first ≤ r.nidx) (hadv : Advance r r₁ w₁)
    (hpiece : w₁ <+: second.drop (r.nidx - first)) :
    ∀ i, r.nidx ≤ i → i < r'.nidx → Covers ((first, second) :: rest) i := by
  intro i hi hi'
  rw [covers_cons]
  rcases Nat.lt_or_ge i r₁.nidx with hlt | hge
  · -- `i` was written from the substring
    left
    have hnidx := hadv.nidx
    have hlength := hpiece.length_le
    rw [List.length_drop] at hlength
    dsimp only
    omega
  · exact Or.inr (h.covered i hge hi')

theorem AssembledPending.pieces_cons (h : AssembledPending r₁ rest r' w)
    (hfirst : first ≤ r.nidx) (hadv : Advance r r₁ w₁)
    (hpiece : w₁ <+: second.drop (r.nidx - first)) {S : List UInt8}
    (hS : PiecesOf S ((first, second) :: rest)) :
    w₁ ++ w <+: S.drop r.nidx := by
  have hentry := drop_isPrefix_drop hfirst (hS (first, second) (by simp))
  have hrest := h.pieces S fun f hf => hS f (by simp [hf])
  apply append_isPrefix_drop (hpiece.trans hentry)
  rwa [← hadv.nidx]

theorem AssembledPending.complete_cons (h : AssembledPending r₁ rest r' w)
    (hadv : Advance r r₁ w₁)
    (hend : min (first + second.length) r.windowEnd ≤ r₁.nidx)
    (hin : ∀ i, Covers ((first, second) :: rest) i → i < r.windowEnd) :
    ∀ i, Covers ((first, second) :: rest) i →
      i < r'.nidx ∨ Covers r'.mp i := by
  intro i hi
  simp only [covers_cons] at hi hin
  rcases hi with hi | hi
  · -- the substring ends inside the window, so all of it was written
    left
    have hnidx := h.nidx
    have hlast := hin (first + second.length - 1)
      (Or.inl ⟨by omega, by omega⟩)
    omega
  · refine h.complete ?_ i hi
    intro j hj
    rw [hadv.windowEnd]
    exact hin j (Or.inr hj)

end AssembledPending

theorem assemblePending_spec {lo : ℕ} {m : List (ℕ × List UInt8)}
    (hm : Separated lo m) (r : StreamReassembler)
    (hu : total m ≤ r.unassembledBytes) :
    ∃ r' w, r.assemblePending m = some r' ∧ AssembledPending r m r' w := by
  induction m generalizing r lo with
  | nil =>
      refine ⟨_, [], rfl, r.advance_of_pending _ _, trivial,
        List.suffix_refl _, rfl, ?_, ?_, ?_⟩
      · intro i hi hi'
        dsimp only at hi'
        omega
      · intro S _
        exact List.nil_prefix
      · intro _ i hi
        exact absurd hi (not_covers_nil i)
  | cons entry rest ih =>
      obtain ⟨first, second⟩ := entry
      simp only [total_cons] at hu
      rw [assemblePending]
      by_cases hfirst : first ≤ r.nidx
      · -- the entry is erased and the loop goes on in `r₁`
        obtain ⟨r₁, w₁, hr₁, hadv₁, hu₁, hpiece₁, hend₁⟩ :=
          assembleEntry_spec second hfirst
        rw [subSize_of_le (by omega)] at hu₁
        obtain ⟨r', w, hr', hspec⟩ := ih hm.2 r₁ (by omega)
        refine ⟨r', w₁ ++ w, ?_, hadv₁.trans hspec.toAdvance,
          hspec.separated, hspec.suffix.trans (List.suffix_cons _ _),
          ?_, hspec.covered_cons hfirst hadv₁ hpiece₁,
          fun S => hspec.pieces_cons hfirst hadv₁ hpiece₁,
          hspec.complete_cons hadv₁ hend₁⟩
        · simp [hfirst, hr₁, hr']
        · have := hspec.unassembled
          simp only [total_cons]
          omega
      · -- the first entry starts beyond the next index: the loop ends
        refine ⟨{ r with mp := (first, second) :: rest }, [],
          by simp [hfirst], r.advance_of_pending _ _,
          ⟨by simpa using hfirst, hm.2⟩, List.suffix_refl _, rfl,
          ?_, ?_, ?_⟩
        · intro i hi hi'
          dsimp only at hi'
          omega
        · intro S _
          exact List.nil_prefix
        · intro _ i hi
          exact Or.inr hi

/-! ## The out-of-order branch -/

/-- The result of merging the entries `m`, all at or after `idx`, into `str`. -/
structure MergedNext (idx : ℕ) (str : List UInt8) (u : ℕ)
    (m : List (ℕ × List UInt8)) (m' : Merge) : Prop where
  idx_eq : m'.idx = idx
  suffix : m'.mp <:+ m
  separated : Separated (idx + m'.str.length) m'.mp
  unassembled : m'.unassembledBytes + total m = u + total m'.mp
  covers : ∀ i, Covers ((idx, m'.str) :: m'.mp) i ↔ Covers ((idx, str) :: m) i
  pieces : ∀ S, PiecesOf S ((idx, str) :: m) →
    PiecesOf S ((idx, m'.str) :: m'.mp)

theorem mergeNext_spec {lo idx : ℕ} {m : List (ℕ × List UInt8)}
    (hm : Separated lo m) (hidx : ∀ f ∈ m, idx ≤ f.1)
    (str : List UInt8) (u : ℕ) (hu : total m ≤ u) :
    ∃ m', mergeNext idx str u m = some m' ∧ MergedNext idx str u m m' := by
  induction m generalizing lo str u with
  | nil =>
      refine ⟨_, rfl, rfl, List.suffix_refl _, trivial, rfl, ?_, ?_⟩
      · intro i
        rfl
      · intro S hS
        exact hS
  | cons entry rest ih =>
      obtain ⟨first, second⟩ := entry
      simp only [total_cons] at hu
      have hle : idx ≤ first := hidx (first, second) (by simp)
      rw [mergeNext]
      by_cases hfirst : first ≤ idx + str.length
      · obtain ⟨m', hm', hspec⟩ := ih hm.2
          (fun f hf => hidx f (by simp [hf]))
          (join (idx, str) (first, second)).2 (u - second.length) (by omega)
        refine ⟨m', ?_, hspec.idx_eq,
          hspec.suffix.trans (List.suffix_cons _ _), hspec.separated,
          ?_, ?_, ?_⟩
        · simpa [hfirst, join, appendNext_eq, subSize_of_le
            (show second.length ≤ u by omega)] using hm'
        · have := hspec.unassembled
          simp only [total_cons]
          omega
        · intro i
          exact (hspec.covers i).trans
            (covers_join_cons (idx, str) (first, second) hle hfirst rest i)
        · intro S hS
          apply hspec.pieces
          intro f hf
          rcases List.mem_cons.mp hf with rfl | hf
          · exact join_isPrefix_drop _ _ hfirst (hS (idx, str) (by simp))
              (hS (first, second) (by simp))
          · exact hS f (by simp [hf])
      · refine ⟨⟨idx, str, u, (first, second) :: rest⟩, by simp [hfirst],
          rfl, List.suffix_refl _, ⟨by simpa using hfirst, hm.2⟩, rfl, ?_, ?_⟩
        · intro i
          rfl
        · intro S hS
          exact hS

/-- The result of the whole merge: the substring sits between entries `lower`
and `upper` of the old map, with a gap on both sides. -/
structure Merged (r : StreamReassembler) (data : List UInt8) (index : ℕ)
    (m : Merge) (lower upper : List (ℕ × List UInt8)) : Prop where
  mp : m.mp = lower ++ upper
  separated : Separated r.nidx (lower ++ (m.idx, m.str) :: upper)
  unassembled : m.unassembledBytes = total m.mp
  le : total m.mp ≤ total r.mp
  covers : ∀ i, Covers (lower ++ (m.idx, m.str) :: upper) i ↔
    Covers ((index, data) :: r.mp) i
  old : ∀ f ∈ lower ++ upper, f ∈ r.mp
  pieces : ∀ S, PiecesOf S ((index, data) :: r.mp) →
    PiecesOf S (lower ++ (m.idx, m.str) :: upper)

/-- The entry before the merged substring is either absorbed or ends before
it. -/
theorem mergeLast_spec {lo : ℕ} {below : List (ℕ × List UInt8)} {m : Merge}
    (hbelow : Separated lo below) (hlt : ∀ f ∈ below, f.1 < m.idx)
    (hidx : lo < m.idx) (hnext : Separated (m.idx + m.str.length) m.mp)
    (hstop : Separated (lastStop lo below) m.mp)
    (hu : total below ≤ m.unassembledBytes) :
    ∃ m' lower, mergeLast below m = some m' ∧ lower <+: below ∧
      m'.mp = lower ++ m.mp ∧
      Separated lo (lower ++ (m'.idx, m'.str) :: m.mp) ∧
      m'.unassembledBytes + total below = m.unassembledBytes + total lower ∧
      (∀ i, Covers (lower ++ [(m'.idx, m'.str)]) i ↔
        Covers ((m.idx, m.str) :: below) i) ∧
      ∀ S, PiecesOf S ((m.idx, m.str) :: below) →
        PiecesOf S (lower ++ [(m'.idx, m'.str)]) := by
  rcases List.eq_nil_or_concat' below with rfl | ⟨init, ⟨first, second⟩, rfl⟩
  · refine ⟨m, [], by simp [mergeLast], List.prefix_refl _, rfl,
      ⟨hidx, hnext⟩, rfl, ?_, ?_⟩
    · intro i
      rfl
    · intro S hS
      exact hS
  · have hfirst : first < m.idx := hlt (first, second) (by simp)
    simp only [total_append, total_cons, total_nil] at hu
    simp only [lastStop_append_singleton] at hstop
    rw [separated_append] at hbelow
    by_cases hlast : m.idx ≤ first + second.length
    · -- the entry reaches the substring: the union starts at `first`
      refine ⟨⟨first, (join (first, second) (m.idx, m.str)).2,
        m.unassembledBytes - second.length, init ++ m.mp⟩, init, ?_,
        List.prefix_append _ _, rfl, ?_, ?_, ?_, ?_⟩
      · simp [mergeLast, hlast, prependLast_eq, join,
          subSize_of_le (show second.length ≤ m.unassembledBytes by omega)]
      · rw [separated_append]
        refine ⟨hbelow.1, hbelow.2.1, ?_⟩
        have hjoin := stop_join (first, second) (m.idx, m.str) hlast
        dsimp only at hjoin ⊢
        rw [hjoin]
        exact hstop.sup hnext
      · simp only [total_append, total_cons, total_nil]
        omega
      · intro i
        have hjoin := covers_join_cons (first, second) (m.idx, m.str) hfirst.le
          hlast [] i
        simp only [covers_append, covers_cons, not_covers_nil,
          or_false] at hjoin ⊢
        rw [or_left_comm, or_comm (a := _ ∧ _), ← hjoin]
        rfl
      · intro S hS f hf
        rcases List.mem_append.mp hf with hf | hf
        · exact hS f (by simp [hf])
        · obtain rfl := List.mem_singleton.mp hf
          exact join_isPrefix_drop _ _ hlast (hS (first, second) (by simp))
            (hS (m.idx, m.str) (by simp))
    · refine ⟨{ m with mp := init ++ [(first, second)] ++ m.mp },
        init ++ [(first, second)], by simp [mergeLast, hlast],
        List.prefix_refl _, rfl, ?_, rfl, ?_, ?_⟩
      · rw [separated_append, separated_append, lastStop_append_singleton]
        exact ⟨hbelow, by simpa using hlast, hnext⟩
      · intro i
        simp only [covers_append, covers_cons, not_covers_nil, or_false]
        exact or_comm
      · intro S hS f hf
        rcases List.mem_append.mp hf with hf | hf
        · exact hS f (List.mem_cons_of_mem _ hf)
        · exact hS f (by simp_all)

theorem merge_spec {r : StreamReassembler} (h : r.WellFormed)
    (data : List UInt8) {index : ℕ} (hindex : r.nidx < index) :
    ∃ m lower upper, r.merge data index = some m ∧
      Merged r data index m lower upper := by
  obtain ⟨below, hbelow⟩ : ∃ m, m = before index r.mp := ⟨_, rfl⟩
  obtain ⟨above, habove⟩ : ∃ m, m = lowerBound index r.mp := ⟨_, rfl⟩
  have hmp : r.mp = below ++ above := by
    rw [hbelow, habove, before_append_lowerBound]
  have hsep := h.separated
  rw [hmp, separated_append] at hsep
  have htotal : r.unassembledBytes = total below + total above := by
    rw [h.unassembled, hmp, total_append]
  obtain ⟨m₁, hm₁, hnext⟩ := mergeNext_spec hsep.2
    (fun f hf => h.separated.le_of_mem_lowerBound (habove ▸ hf)) data
    r.unassembledBytes (by omega)
  have hidx := hnext.idx_eq
  have hu₁ := hnext.unassembled
  obtain ⟨m, lower, hm, hlower, hmpm, hsepm, hu, hcovers, hpieces⟩ :=
    mergeLast_spec (m := m₁) hsep.1
      (fun f hf => hidx ▸ lt_of_mem_before (hbelow ▸ hf))
      (hidx ▸ hindex) (hidx ▸ hnext.separated)
      (hsep.2.of_suffix hnext.suffix) (by omega)
  have hle : total lower ≤ total below := by
    obtain ⟨gone, rfl⟩ := hlower
    simp
  have hle₁ : total m₁.mp ≤ total above := by
    obtain ⟨gone, rfl⟩ := hnext.suffix
    simp
  refine ⟨m, lower, m₁.mp, ?_, hmpm, hsepm, ?_, ?_, ?_, ?_, ?_⟩
  · simp [merge, ← hbelow, ← habove, hm₁, hm]
  · rw [hmpm, total_append]
    omega
  · rw [hmpm, hmp, total_append, total_append]
    omega
  · intro i
    have h₁ := hnext.covers i
    have h₂ := hcovers i
    rw [hidx] at h₂
    simp only [hmp, covers_append, covers_cons, not_covers_nil,
      or_false] at h₁ h₂ ⊢
    rw [← or_assoc, h₂, or_right_comm, h₁, or_assoc,
      or_comm (a := Covers above i)]
  · intro f hf
    rw [hmp, List.mem_append]
    rcases List.mem_append.mp hf with hf | hf
    · exact Or.inl (hlower.subset hf)
    · exact Or.inr (hnext.suffix.subset hf)
  · intro S hS f hf
    rw [hmp] at hS
    have hS₁ := hnext.pieces S fun g hg => hS g (by
      rcases List.mem_cons.mp hg with rfl | hg
      · simp
      · simp [hg])
    have hS₂ := hpieces S fun g hg => by
      rcases List.mem_cons.mp hg with rfl | hg
      · rw [hidx]
        exact hS₁ (index, m₁.str) (by simp)
      · exact hS g (by simp [hg])
    rcases List.mem_append.mp hf with hf | hf
    · exact hS₂ f (by simp [hf])
    · rcases List.mem_cons.mp hf with rfl | hf
      · exact hS₂ _ (by simp)
      · exact hS₁ f (by simp [hf])

end StreamReassembler
end Sponge
