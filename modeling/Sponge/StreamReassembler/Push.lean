import Sponge.StreamReassembler.Assembly

/-!
# The specification of `push_substring`

The two branches are put together into one description of a push, `Inserted`,
which later modules use.  It speaks of the fragments before the push, the
pending ones and the pushed one, and holds for arbitrary data.
-/

namespace Sponge
namespace StreamReassembler

open Support

/-- The effect of a push of `data` at `index` on the output and on the map. -/
structure Inserted (r : StreamReassembler) (data : List UInt8) (index : ℕ)
    (r' : StreamReassembler) (w : List UInt8) : Prop
    extends Writes r r' w where
  wellFormed : r'.WellFormed
  covered : ∀ i, i < r'.nidx ∨ Covers r'.mp i →
    i < r.nidx ∨ Covers ((index, data) :: r.mp) i
  pieces : ∀ S, PiecesOf S ((index, data) :: r.mp) →
    w <+: S.drop r.nidx ∧ PiecesOf S r'.mp
  complete : (∀ i, Covers ((index, data) :: r.mp) i → i < r.windowEnd) →
    ∀ i, Covers ((index, data) :: r.mp) i → i < r'.nidx ∨ Covers r'.mp i
  inOrder : index ≤ r.nidx → r'.mp <:+ r.mp ∧
    min (index + data.length) r.windowEnd ≤ r'.nidx

/-! ## Storing the merged substring -/

section Store

variable {r : StreamReassembler} {data : List UInt8} {index : ℕ} {m : Merge}
  {lower upper : List (ℕ × List UInt8)}

theorem mp_store (hm : Merged r data index m lower upper) :
    (r.store m).mp =
      lower ++ (m.idx, m.str.take (r.storeSize m)) :: upper := by
  have hpairs := hm.separated.pairwise
  rw [List.pairwise_append, List.pairwise_cons] at hpairs
  obtain ⟨-, ⟨hupper, -⟩, hlower⟩ := hpairs
  simp only [store, hm.mp]
  apply emplace_append
  · intro e he
    have := hlower e he (m.idx, m.str) (by simp)
    dsimp only at this
    omega
  · intro e he
    have := hupper e he
    dsimp only at this
    omega

/-- When everything lies inside the window, nothing is cut off. -/
theorem storeSize_eq (h : r.WellFormed) (hm : Merged r data index m lower upper)
    (hin : ∀ i, Covers ((index, data) :: r.mp) i → i < r.windowEnd) :
    r.storeSize m = m.str.length := by
  have hroom := hm.separated.total_lt
    (b := r.windowEnd) fun i hi => hin i ((hm.covers i).mp hi)
  have hu := hm.unassembled
  have hcap := h.capacity
  have hsz := r.output.sz_le
  rw [hm.mp, total_append] at hu
  simp only [total_append, total_cons] at hroom
  unfold windowEnd at hroom
  unfold storeSize
  rw [ByteStream.bufferSize_eq,
    subSize_of_le (show m.unassembledBytes ≤ r.capacity by omega),
    subSize_of_le (by omega)]
  omega

theorem separated_store (hm : Merged r data index m lower upper) :
    Separated r.nidx (r.store m).mp := by
  have hsep := hm.separated
  rw [separated_append] at hsep
  rw [mp_store hm, separated_append]
  refine ⟨hsep.1, hsep.2.1, hsep.2.2.weaken ?_⟩
  simp only [List.length_take]
  omega

theorem store_inserted (h : r.WellFormed) (hindex : r.nidx < index)
    (hm : Merged r data index m lower upper) :
    Inserted r data index (r.store m) [] := by
  have hmp := mp_store hm
  refine ⟨⟨by simp [store], rfl, rfl, rfl⟩, ⟨?_, ?_, h.capacity⟩,
    ?_, ?_, ?_, ?_⟩
  · have hsep := separated_store hm
    exact hsep
  · have hu := hm.unassembled
    rw [hm.mp, total_append] at hu
    rw [hmp]
    simp only [store, hu, total_append, total_cons, List.length_take,
      storeSize]
    omega
  · rintro i (hi | hi)
    · exact Or.inl hi
    · rw [hmp] at hi
      exact Or.inr ((hm.covers i).mp hi.of_take)
  · intro S hS
    refine ⟨List.nil_prefix, ?_⟩
    have hpieces := hm.pieces S hS
    rw [hmp]
    intro f hf
    rcases List.mem_append.mp hf with hf | hf
    · exact hpieces f (by simp [hf])
    · rcases List.mem_cons.mp hf with rfl | hf
      · exact (List.take_prefix _ _).trans
          (hpieces (m.idx, m.str) (by simp))
      · exact hpieces f (by simp [hf])
  · intro hin i hi
    right
    rw [hmp, storeSize_eq h hm hin, List.take_length]
    exact (hm.covers i).mpr hi
  · intro hle
    omega

end Store

/-! ## Both branches -/

theorem insert_spec {r : StreamReassembler} (h : r.WellFormed)
    (data : List UInt8) (index : ℕ) :
    ∃ r' w, r.insert data index = some r' ∧ Advance r r' w ∧
      Inserted r data index r' w := by
  rcases Nat.lt_or_ge r.nidx index with hindex | hindex
  · obtain ⟨m, lower, upper, hm, hspec⟩ := merge_spec h data hindex
    refine ⟨r.store m, [], ?_, r.advance_of_pending _ _,
      store_inserted h hindex hspec⟩
    simp [insert, hm, Nat.not_le.mpr hindex]
  · by_cases hnew : r.nidx - index < data.length
    · obtain ⟨r₁, w₁, hr₁, hadv₁, hmp₁, hu₁, hpiece₁, hend₁⟩ :=
        assemble_spec hindex hnew
      have htotal := h.unassembled
      obtain ⟨r', w, hr', hspec⟩ := assemblePending_spec h.separated r₁
        (by omega)
      have hadv := hadv₁.trans hspec.toAdvance
      have hnidx := hspec.nidx
      have hu := hspec.unassembled
      refine ⟨r', w₁ ++ w, ?_, hadv, hadv.toWrites, ?_, ?_, ?_,
        hspec.complete_cons hadv₁ hend₁.ge, ?_⟩
      · simp [insert, hindex, hnew, hr₁, hmp₁, hr']
      · refine ⟨hspec.separated, by omega, ?_⟩
        rw [hadv.outputCapacity, hadv.capacity, h.capacity]
      · rintro i (hi | hi)
        · rcases Nat.lt_or_ge i r.nidx with hold | hnewer
          · exact Or.inl hold
          · exact Or.inr (hspec.covered_cons hindex hadv₁ hpiece₁ i hnewer hi)
        · obtain ⟨f, hf, hi⟩ := hi
          exact Or.inr ((covers_cons _ _ _).mpr
            (Or.inr ⟨f, hspec.suffix.subset hf, hi⟩))
      · intro S hS
        refine ⟨hspec.pieces_cons hindex hadv₁ hpiece₁ hS, ?_⟩
        intro f hf
        exact hS f (by simp [hspec.suffix.subset hf])
      · intro _
        exact ⟨hspec.suffix, by omega⟩
    · -- all of the data was assembled before
      refine ⟨r, [], by simp [insert, hindex, hnew],
        r.advance_of_pending r.mp r.unassembledBytes,
        ⟨⟨by simp, rfl, rfl, rfl⟩, h, ?_, ?_, ?_, ?_⟩⟩
      · simp only [covers_cons]
        rintro i (hi | hi)
        · exact Or.inl hi
        · exact Or.inr (Or.inr hi)
      · intro S hS
        exact ⟨List.nil_prefix, fun f hf => hS f (by simp [hf])⟩
      · simp only [covers_cons]
        rintro - i (hi | hi)
        · exact Or.inl (by omega)
        · exact Or.inr hi
      · intro _
        exact ⟨List.suffix_refl _, by omega⟩

/-- The effect of a whole push: on output and map as in `Inserted`, on the end
of the stream as follows. -/
structure Pushed (r : StreamReassembler) (data : List UInt8) (index : ℕ)
    (eof : Bool) (r' : StreamReassembler) (w : List UInt8) : Prop
    extends Inserted r data index r' w where
  eof_eq : r'.eof = (r.eof || eof)
  eidx_eq : r'.eidx = if eof then index + data.length else r.eidx
  inputEnded_iff : r'.output.inputEnded = true ↔
    r.output.inputEnded = true ∨ (r'.eof = true ∧ r'.eidx ≤ r'.nidx)

theorem push_spec {r : StreamReassembler} (h : r.WellFormed)
    (data : List UInt8) (index : ℕ) (eof : Bool) :
    ∃ w, Pushed r data index eof (r.push data index eof) w := by
  obtain ⟨r₀, hr₀⟩ : ∃ r₀, r.noteEof data index eof = r₀ := ⟨_, rfl⟩
  have hsame : r₀.output = r.output ∧ r₀.mp = r.mp ∧ r₀.nidx = r.nidx ∧
      r₀.capacity = r.capacity ∧
      r₀.unassembledBytes = r.unassembledBytes ∧
      r₀.eof = (r.eof || eof) ∧
      r₀.eidx = if eof then index + data.length else r.eidx := by
    subst hr₀
    cases eof <;> simp [noteEof]
  obtain ⟨hout, hmp, hnidx, hcap, hu, heof, heidx⟩ := hsame
  have h₀ : r₀.WellFormed := by
    constructor
    · rw [hnidx, hmp]
      exact h.separated
    · rw [hu, hmp]
      exact h.unassembled
    · rw [hout, hcap]
      exact h.capacity
  obtain ⟨r₁, w, hr₁, hadv, hspec⟩ := insert_spec h₀ data index
  have hpush : r.push data index eof = r₁.closeAtEof := by
    simp [push, pushSubstring, hr₀, hr₁]
  have hend := hadv.inputEnded
  have heof₁ := hadv.eof.trans heof
  have heidx₁ := hadv.eidx.trans heidx
  -- the end-of-stream bookkeeping touches none of the fields `Inserted` reads
  have hwin : r₀.windowEnd = r.windowEnd := by
    simp only [windowEnd, hnidx, hout]
  obtain ⟨⟨hw₁, hw₂, hw₃, hw₄⟩, hwf, hcov, hpie, hcom, hord⟩ := hspec
  rw [hout] at hw₁ hw₄ hend
  rw [hnidx] at hw₂ hcov hpie hord
  rw [hcap] at hw₃
  rw [hmp] at hcov hpie hcom hord
  rw [hwin] at hcom hord
  refine ⟨w, ?_⟩
  rw [hpush]
  unfold closeAtEof
  split
  · rename_i hclose
    exact ⟨⟨⟨hw₁, hw₂, hw₃, hw₄⟩, ⟨hwf.separated, hwf.unassembled,
      hwf.capacity⟩, hcov, hpie, hcom, hord⟩, heof₁, heidx₁,
      ⟨fun _ => Or.inr hclose, fun _ => rfl⟩⟩
  · rename_i hopen
    refine ⟨⟨⟨hw₁, hw₂, hw₃, hw₄⟩, hwf, hcov, hpie, hcom, hord⟩, heof₁,
      heidx₁, ?_⟩
    rw [hend]
    exact ⟨Or.inl, fun hor => hor.resolve_right hopen⟩

/-- A push writes something exactly when it carries the next byte and the
output has room. -/
theorem Inserted.nidx_lt_iff {r r' : StreamReassembler} {data : List UInt8}
    {index : ℕ} {w : List UInt8} (hw : Inserted r data index r' w)
    (h : r.WellFormed) :
    r.nidx < r'.nidx ↔ index ≤ r.nidx ∧ r.nidx < index + data.length ∧
      r.output.sz < r.output.capacity := by
  constructor
  · intro hlt
    have hnidx := hw.nidx
    have hsz := hw.sz
    have hle := r'.output.sz_le
    have hcap := hw.outputCapacity
    rcases hw.covered r.nidx (Or.inl hlt) with hcov | hcov
    · omega
    · rcases (covers_cons _ _ _).mp hcov with hdata | hpending
      · exact ⟨hdata.1, hdata.2, by omega⟩
      · exact absurd (h.separated.lt_of_covers hpending) (lt_irrefl _)
  · rintro ⟨hindex, hdata, hroom⟩
    have hmin := (hw.inOrder hindex).2
    unfold windowEnd at hmin
    omega

/-! ## The map after an out-of-order push -/

theorem mp_closeAtEof (r : StreamReassembler) : r.closeAtEof.mp = r.mp := by
  unfold closeAtEof
  split <;> rfl

/-- The map after an out-of-order push: the merged substring, cut to the store
size, between the entries it was not merged with. -/
theorem mp_push_of_lt {r : StreamReassembler} (h : r.WellFormed)
    (data : List UInt8) {index : ℕ} (eof : Bool) (hindex : r.nidx < index) :
    ∃ m lower upper, r.merge data index = some m ∧
      Merged r data index m lower upper ∧
      (r.push data index eof).mp =
        lower ++ (m.idx, m.str.take (r.storeSize m)) :: upper := by
  obtain ⟨m, lower, upper, hm, hspec⟩ := merge_spec h data hindex
  refine ⟨m, lower, upper, hm, hspec, ?_⟩
  have hnidx : (r.noteEof data index eof).nidx = r.nidx := by
    cases eof <;> rfl
  have hmerge : (r.noteEof data index eof).merge data index = some m := by
    rw [← hm]
    cases eof <;> rfl
  have hpush : r.push data index eof =
      ((r.noteEof data index eof).store m).closeAtEof := by
    simp [push, pushSubstring, insert, hnidx, hmerge, Nat.not_le.mpr hindex]
  rw [hpush, mp_closeAtEof, ← mp_store hspec]
  cases eof <;> rfl

end StreamReassembler
end Sponge
