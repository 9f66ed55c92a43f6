import Mathlib.Data.List.Basic
import Sponge.Support.Refinement

/-!
# A string in pieces

A string is kept as a list of pieces, any of which may be empty.  To remove a
prefix, whole pieces are dropped while they are not longer than what is left to
remove, and the piece in which the prefix ends is trimmed.  What a piece is and
how it is trimmed is left open; pieces that show strings behave like the strings
that they show.
-/

namespace Sponge.Support

/-- The loop that removes a prefix of `n` elements.  What becomes of the pieces
is returned also if the loop ends in an error. -/
def removeFront {π ε : Type*} (size : π → ℕ) (trim : π → ℕ → Except ε π)
    (exhausted : ε) : List π → ℕ → List π × Except ε Unit
  | pieces, 0 => (pieces, .ok ())
  | [], _ + 1 => ([], .error exhausted)
  | front :: rest, n + 1 =>
      if n + 1 < size front then
        match trim front (n + 1) with
        | .ok trimmed => (trimmed :: rest, .ok ())
        | .error e => (front :: rest, .error e)
      else removeFront size trim exhausted rest (n + 1 - size front)

/-! ## Pieces that are strings -/

section Strings

variable {α ε : Type*}

/-- Removing a prefix from a list of strings. -/
def removeFrontStrings (exhausted : ε) :
    List (List α) → ℕ → List (List α) × Except ε Unit :=
  removeFront List.length (fun piece n => .ok (piece.drop n)) exhausted

variable (exhausted : ε)

theorem removeFrontStrings_cons_of_lt {front : List α} {n : ℕ}
    (h : n + 1 < front.length) (rest : List (List α)) :
    removeFrontStrings exhausted (front :: rest) (n + 1) =
      (front.drop (n + 1) :: rest, .ok ()) := by
  rw [removeFrontStrings, removeFront, if_pos h]

theorem removeFrontStrings_cons_of_not_lt {front : List α} {n : ℕ}
    (h : ¬n + 1 < front.length) (rest : List (List α)) :
    removeFrontStrings exhausted (front :: rest) (n + 1) =
      removeFrontStrings exhausted rest (n + 1 - front.length) := by
  rw [removeFrontStrings, removeFront, if_neg h]

/-- A prefix that is not longer than the string is removed. -/
theorem exists_removeFrontStrings {pieces : List (List α)} {n : ℕ}
    (h : n ≤ pieces.flatten.length) :
    ∃ rest, removeFrontStrings exhausted pieces n = (rest, .ok ()) ∧
      rest.flatten = pieces.flatten.drop n := by
  induction pieces generalizing n with
  | nil =>
      obtain rfl : n = 0 := Nat.le_zero.mp h
      exact ⟨[], rfl, rfl⟩
  | cons front pieces ih =>
      rw [List.flatten_cons, List.length_append] at h
      cases n with
      | zero => exact ⟨front :: pieces, rfl, rfl⟩
      | succ n =>
          by_cases hlt : n + 1 < front.length
          · refine ⟨_, removeFrontStrings_cons_of_lt exhausted hlt pieces, ?_⟩
            rw [List.flatten_cons, List.flatten_cons,
              List.drop_append_of_le_length (Nat.le_of_lt hlt)]
          · have hge : front.length ≤ n + 1 := Nat.not_lt.mp hlt
            obtain ⟨rest, hrun, hrest⟩ := ih (Nat.sub_le_iff_le_add'.mpr h)
            refine ⟨rest, ?_, ?_⟩
            · rw [removeFrontStrings_cons_of_not_lt exhausted hlt, hrun]
            · rw [hrest, List.flatten_cons, List.drop_append,
                List.drop_eq_nil_of_le hge, List.nil_append]

/-- A longer one uses up all pieces. -/
theorem removeFrontStrings_of_lt {pieces : List (List α)} {n : ℕ}
    (h : pieces.flatten.length < n) :
    removeFrontStrings exhausted pieces n = ([], .error exhausted) := by
  obtain ⟨n, rfl⟩ := Nat.exists_eq_add_one_of_ne_zero (Nat.ne_zero_of_lt h)
  induction pieces generalizing n with
  | nil => rfl
  | cons front pieces ih =>
      rw [List.flatten_cons, List.length_append] at h
      have hlt : ¬n + 1 < front.length := by omega
      have hleft : pieces.flatten.length < n + 1 - front.length := by omega
      obtain ⟨left, hsucc⟩ :=
        Nat.exists_eq_add_one_of_ne_zero (Nat.ne_zero_of_lt hleft)
      rw [removeFrontStrings_cons_of_not_lt exhausted hlt, hsucc]
      rw [hsucc] at hleft
      exact ih left hleft

end Strings

/-! ## Pieces that show strings -/

/-- Pieces that know the length of what they show and can be trimmed are removed
as the strings that they show. -/
theorem removeFront_shows {π α ε : Type*} {size : π → ℕ}
    {trim : π → ℕ → Except ε π} {exhausted exhausted' : ε}
    {shows : π → List α} (hsize : ∀ piece, size piece = (shows piece).length)
    (htrim : ∀ piece n, n ≤ size piece →
      Yields shows (trim piece n) ((shows piece).drop n))
    (pieces : List π) (n : ℕ) :
    (∃ rest, removeFront size trim exhausted pieces n = (rest, .ok ()) ∧
        removeFrontStrings exhausted' (pieces.map shows) n =
          (rest.map shows, .ok ())) ∨
      (removeFront size trim exhausted pieces n = ([], .error exhausted) ∧
        removeFrontStrings exhausted' (pieces.map shows) n =
          ([], .error exhausted')) := by
  induction pieces generalizing n with
  | nil =>
      cases n with
      | zero => exact Or.inl ⟨[], rfl, rfl⟩
      | succ n => exact Or.inr ⟨rfl, rfl⟩
  | cons front pieces ih =>
      cases n with
      | zero => exact Or.inl ⟨front :: pieces, rfl, rfl⟩
      | succ n =>
          rw [removeFront, List.map_cons]
          by_cases hlt : n + 1 < size front
          · obtain ⟨trimmed, htrimmed, hshows⟩ :=
              htrim front (n + 1) (Nat.le_of_lt hlt)
            rw [if_pos hlt, htrimmed,
              removeFrontStrings_cons_of_lt exhausted' (hsize front ▸ hlt),
              ← hshows]
            exact Or.inl ⟨trimmed :: pieces, rfl, rfl⟩
          · rw [if_neg hlt,
              removeFrontStrings_cons_of_not_lt exhausted' (hsize front ▸ hlt),
              ← hsize front]
            exact ih (n + 1 - size front)

end Sponge.Support
