import Mathlib.Data.List.Infix
import Mathlib.Data.List.TakeWhile
import Mathlib.Data.Set.Card
import Mathlib.Order.Interval.Finset.Nat

/-!
# Ordered maps of fragments

An ordered map is the list of its entries in increasing key order, with the
operations of a tree map that are used below: the entries before a key, the
entries from its lower bound on, and insertion of an absent key.

A fragment is an entry `(k, s)` read as "the positions `k, k + 1, ...` carry
the elements of `s`".  For a map of fragments the module states which positions
it covers, that its entries are separated by gaps, and that every fragment
agrees with one underlying sequence.
-/

namespace Sponge.Support

/-! ## Ordered maps as lists -/

section OrderedMap

variable {κ β : Type*} [LinearOrder κ]

/-- The entries whose key is less than `k`. -/
def before (k : κ) (m : List (κ × β)) : List (κ × β) :=
  m.takeWhile fun e => decide (e.1 < k)

/-- The entries from the lower bound of `k` on. -/
def lowerBound (k : κ) (m : List (κ × β)) : List (κ × β) :=
  m.dropWhile fun e => decide (e.1 < k)

/-- Insert `(k, v)` unless the key is already present. -/
def emplace (k : κ) (v : β) (m : List (κ × β)) : List (κ × β) :=
  match lowerBound k m with
  | [] => before k m ++ [(k, v)]
  | e :: rest => if e.1 = k then m else before k m ++ (k, v) :: e :: rest

theorem before_append_lowerBound (k : κ) (m : List (κ × β)) :
    before k m ++ lowerBound k m = m :=
  List.takeWhile_append_dropWhile

theorem lt_of_mem_before {k : κ} {m : List (κ × β)} {e : κ × β}
    (he : e ∈ before k m) : e.1 < k := by
  simpa using List.mem_takeWhile_imp he

theorem emplace_append {k : κ} {v : β} {xs ys : List (κ × β)}
    (hxs : ∀ e ∈ xs, e.1 < k) (hys : ∀ e ∈ ys, k < e.1) :
    emplace k v (xs ++ ys) = xs ++ (k, v) :: ys := by
  have hbefore : before k (xs ++ ys) = xs ++ before k ys :=
    List.takeWhile_append_of_pos (by simpa using hxs)
  have hlower : lowerBound k (xs ++ ys) = lowerBound k ys :=
    List.dropWhile_append_of_pos (by simpa using hxs)
  rw [emplace, hbefore, hlower]
  cases ys with
  | nil => simp [before, lowerBound]
  | cons e ys =>
      have he : k < e.1 := hys e (by simp)
      have hnot : ¬e.1 < k := not_lt.mpr he.le
      simp [before, lowerBound, hnot, he.ne']

end OrderedMap

/-! ## Pieces of one sequence -/

section Pieces

variable {α : Type*}

theorem drop_isPrefix_drop {s S : List α} {k n : ℕ} (hkn : k ≤ n)
    (h : s <+: S.drop k) : s.drop (n - k) <+: S.drop n := by
  have hdrop := h.drop (n - k)
  rwa [List.drop_drop, Nat.add_sub_cancel' hkn] at hdrop

theorem append_isPrefix_drop {s t S : List α} {k : ℕ}
    (hs : s <+: S.drop k) (ht : t <+: S.drop (k + s.length)) :
    s ++ t <+: S.drop k := by
  obtain ⟨rest, hrest⟩ := hs
  rw [← List.drop_drop, ← hrest, List.drop_left] at ht
  rw [← hrest]
  exact (List.prefix_append_right_inj s).mpr ht

theorem isPrefix_drop_mono {s S T : List α} {k : ℕ}
    (hST : S <+: T) (hs : s <+: S.drop k) : s <+: T.drop k :=
  hs.trans (hST.drop k)

theorem length_le_of_isPrefix_drop {s S : List α} {k : ℕ}
    (hs : s <+: S.drop k) (hne : s ≠ []) : k + s.length ≤ S.length := by
  have hle := hs.length_le
  have hpos := List.length_pos_of_ne_nil hne
  rw [List.length_drop] at hle
  omega

end Pieces

/-! ## Maps of fragments -/

section Fragments

variable {α : Type*}

/-- Position `i` lies in one of the fragments. -/
def Covers (m : List (ℕ × List α)) (i : ℕ) : Prop :=
  ∃ f ∈ m, f.1 ≤ i ∧ i < f.1 + f.2.length

/-- The number of elements in all fragments together. -/
def total (m : List (ℕ × List α)) : ℕ :=
  (m.map fun f => f.2.length).sum

/-- The fragments lie beyond position `lo`, in order, with at least one free
position before each of them. -/
def Separated : ℕ → List (ℕ × List α) → Prop
  | _, [] => True
  | lo, f :: m => lo < f.1 ∧ Separated (f.1 + f.2.length) m

/-- Every fragment is a piece of `S`. -/
def PiecesOf (S : List α) (m : List (ℕ × List α)) : Prop :=
  ∀ f ∈ m, f.2 <+: S.drop f.1

/-- The end of the last fragment, or `lo` when there is none. -/
def lastStop (lo : ℕ) (m : List (ℕ × List α)) : ℕ :=
  m.foldl (fun _ f => f.1 + f.2.length) lo

@[simp] theorem not_covers_nil (i : ℕ) :
    ¬Covers ([] : List (ℕ × List α)) i := by
  simp [Covers]

@[simp] theorem covers_cons (f : ℕ × List α) (m : List (ℕ × List α)) (i : ℕ) :
    Covers (f :: m) i ↔ (f.1 ≤ i ∧ i < f.1 + f.2.length) ∨ Covers m i := by
  simp [Covers]

@[simp] theorem covers_append (m n : List (ℕ × List α)) (i : ℕ) :
    Covers (m ++ n) i ↔ Covers m i ∨ Covers n i := by
  simp [Covers, or_and_right, exists_or]

/-- Cutting a fragment only removes positions. -/
theorem Covers.of_take {below above : List (ℕ × List α)} {k n i : ℕ}
    {s : List α} (h : Covers (below ++ (k, s.take n) :: above) i) :
    Covers (below ++ (k, s) :: above) i := by
  simp only [covers_append, covers_cons, List.length_take] at h ⊢
  refine h.imp_right (Or.imp_left ?_)
  omega

@[simp] theorem total_nil : total ([] : List (ℕ × List α)) = 0 := rfl

@[simp] theorem total_cons (f : ℕ × List α) (m : List (ℕ × List α)) :
    total (f :: m) = f.2.length + total m := by
  simp [total]

@[simp] theorem total_append (m n : List (ℕ × List α)) :
    total (m ++ n) = total m + total n := by
  simp [total]

@[simp] theorem lastStop_nil (lo : ℕ) :
    lastStop lo ([] : List (ℕ × List α)) = lo := rfl

@[simp] theorem lastStop_cons (lo : ℕ) (f : ℕ × List α)
    (m : List (ℕ × List α)) :
    lastStop lo (f :: m) = lastStop (f.1 + f.2.length) m := rfl

@[simp] theorem lastStop_append_singleton (lo : ℕ) (f : ℕ × List α)
    (m : List (ℕ × List α)) :
    lastStop lo (m ++ [f]) = f.1 + f.2.length := by
  simp [lastStop]

theorem separated_append {lo : ℕ} {m n : List (ℕ × List α)} :
    Separated lo (m ++ n) ↔ Separated lo m ∧ Separated (lastStop lo m) n := by
  induction m generalizing lo with
  | nil => simp [Separated]
  | cons f m ih => simp [Separated, ih, and_assoc]

theorem Separated.weaken {lo lo' : ℕ} {m : List (ℕ × List α)}
    (h : Separated lo m) (hle : lo' ≤ lo) : Separated lo' m := by
  cases m with
  | nil => trivial
  | cons f m => exact ⟨lt_of_le_of_lt hle h.1, h.2⟩

theorem Separated.lt_key {lo : ℕ} {m : List (ℕ × List α)}
    (h : Separated lo m) {f : ℕ × List α} (hf : f ∈ m) : lo < f.1 := by
  induction m generalizing lo with
  | nil => simp at hf
  | cons g m ih =>
      rcases List.mem_cons.mp hf with rfl | hm
      · exact h.1
      · have := ih h.2 hm
        have := h.1
        omega

theorem Separated.le_lastStop {lo : ℕ} {m : List (ℕ × List α)}
    (h : Separated lo m) : lo ≤ lastStop lo m := by
  induction m generalizing lo with
  | nil => exact le_rfl
  | cons f m ih =>
      have hfirst := h.1
      have hrest := ih h.2
      rw [lastStop_cons]
      omega

theorem Separated.of_suffix {lo : ℕ} {m n : List (ℕ × List α)}
    (h : Separated lo m) (hn : n <:+ m) : Separated lo n := by
  obtain ⟨gone, rfl⟩ := hn
  rw [separated_append] at h
  exact h.2.weaken h.1.le_lastStop

theorem Separated.sup {lo lo' : ℕ} {m : List (ℕ × List α)}
    (h : Separated lo m) (h' : Separated lo' m) :
    Separated (max lo lo') m := by
  cases m with
  | nil => trivial
  | cons f m => exact ⟨max_lt h.1 h'.1, h.2⟩

theorem Separated.lt_of_covers {lo : ℕ} {m : List (ℕ × List α)}
    (h : Separated lo m) {i : ℕ} (hi : Covers m i) : lo < i := by
  obtain ⟨f, hf, hle, -⟩ := hi
  exact lt_of_lt_of_le (h.lt_key hf) hle

/-- Distinct fragments of a separated map cover distinct positions. -/
theorem Separated.pairwise {lo : ℕ} {m : List (ℕ × List α)}
    (h : Separated lo m) :
    m.Pairwise fun f g => f.1 + f.2.length < g.1 := by
  induction m generalizing lo with
  | nil => exact List.Pairwise.nil
  | cons f m ih =>
      exact List.pairwise_cons.mpr ⟨fun g hg => h.2.lt_key hg, ih h.2⟩

theorem Separated.le_of_mem_lowerBound {lo k : ℕ} {m : List (ℕ × List α)}
    (h : Separated lo m) {f : ℕ × List α} (hf : f ∈ lowerBound k m) :
    k ≤ f.1 := by
  induction m generalizing lo with
  | nil => simp [lowerBound] at hf
  | cons g m ih =>
      by_cases hg : g.1 < k
      · simp only [lowerBound, List.dropWhile_cons, hg, decide_true,
          if_true] at hf
        exact ih h.2 hf
      · simp only [lowerBound, List.dropWhile_cons, hg, decide_false,
          Bool.false_eq_true, if_false] at hf
        rcases List.mem_cons.mp hf with rfl | hm
        · omega
        · have := h.2.lt_key hm
          omega

/-- A separated map whose positions all lie below `b` leaves room: its
elements, the position `lo` and everything before fit below `b`. -/
theorem Separated.total_lt {lo b : ℕ} {m : List (ℕ × List α)}
    (h : Separated lo m) (hb : ∀ i, Covers m i → i < b) :
    lo + total m < b ∨ total m = 0 := by
  induction m generalizing lo with
  | nil => simp
  | cons f m ih =>
      have hrest := ih h.2 fun i hi => hb i (by simp [hi])
      have hlo := h.1
      rw [total_cons]
      rcases Nat.eq_zero_or_pos f.2.length with hzero | hpos
      · rcases hrest with hrest | hrest
        · left
          omega
        · right
          omega
      · -- the last position of `f` is covered, so `f` ends by `b`
        have hlast := hb (f.1 + f.2.length - 1)
          ((covers_cons _ _ _).mpr (Or.inl ⟨by omega, by omega⟩))
        left
        omega

/-- A separated map covers as many positions as it has elements. -/
theorem Separated.ncard_covers {lo : ℕ} {m : List (ℕ × List α)}
    (h : Separated lo m) :
    {i | Covers m i}.Finite ∧ {i | Covers m i}.ncard = total m := by
  induction m generalizing lo with
  | nil => simp
  | cons f m ih =>
      obtain ⟨hfinite, hcard⟩ := ih h.2
      have hset : {i | Covers (f :: m) i} =
          ↑(Finset.Ico f.1 (f.1 + f.2.length)) ∪ {i | Covers m i} := by
        ext i
        simp
      have hdisj : Disjoint
          (↑(Finset.Ico f.1 (f.1 + f.2.length)) : Set ℕ)
          {i | Covers m i} := by
        rw [Set.disjoint_left]
        intro i hi hm
        have := h.2.lt_of_covers hm
        simp at hi
        omega
      rw [hset]
      refine ⟨(Finset.finite_toSet _).union hfinite, ?_⟩
      rw [Set.ncard_union_eq hdisj (Finset.finite_toSet _) hfinite, hcard,
        Set.ncard_coe_finset, Nat.card_Ico, total_cons]
      omega

theorem PiecesOf.mono {S T : List α} {m : List (ℕ × List α)}
    (h : PiecesOf S m) (hST : S <+: T) : PiecesOf T m := by
  intro f hf
  exact isPrefix_drop_mono hST (h f hf)

/-! ## Joining two fragments -/

/-- The fragment `f`, continued by what `g` has after the end of `f`. -/
def join (f g : ℕ × List α) : ℕ × List α :=
  (f.1, f.2 ++ g.2.drop (f.1 + f.2.length - g.1))

section Join

variable (f g : ℕ × List α)

/-- The joined fragment ends where the later of the two ends. -/
theorem stop_join (htouch : g.1 ≤ f.1 + f.2.length) :
    f.1 + (join f g).2.length =
      max (f.1 + f.2.length) (g.1 + g.2.length) := by
  simp only [join, List.length_append, List.length_drop]
  omega

theorem covers_join_cons (hle : f.1 ≤ g.1)
    (htouch : g.1 ≤ f.1 + f.2.length) (m : List (ℕ × List α)) (i : ℕ) :
    Covers (join f g :: m) i ↔ Covers (f :: g :: m) i := by
  have hstop := stop_join f g htouch
  have hfirst : (join f g).1 = f.1 := rfl
  simp only [covers_cons, ← or_assoc, hfirst]
  refine or_congr_left ?_
  omega

theorem join_isPrefix_drop {S : List α} (htouch : g.1 ≤ f.1 + f.2.length)
    (hf : f.2 <+: S.drop f.1) (hg : g.2 <+: S.drop g.1) :
    (join f g).2 <+: S.drop (join f g).1 :=
  append_isPrefix_drop hf (drop_isPrefix_drop htouch hg)

end Join

end Fragments

end Sponge.Support
