import Mathlib.Data.Nat.Notation
import Mathlib.Logic.Function.Basic

/-!
# Entries that expire

A table keeps for each of its entries the time that the entry has left, and lets
time pass by taking it off every entry.  Such a table is what is left at some
moment of a table of deadlines, in which nothing changes when time passes.
-/

namespace Sponge.Support.Expiry

variable {κ α : Type*}

/-- What is left after `elapsed` of an entry with the time `entry.1` left. -/
def age (elapsed : ℕ) (entry : ℕ × α) : Option (ℕ × α) :=
  if elapsed < entry.1 then some (entry.1 - elapsed, entry.2) else none

/-- The entries whose deadline is after `now`, with the time that they have
left. -/
def live (now : ℕ) (deadlines : κ → Option (ℕ × α)) (key : κ) :
    Option (ℕ × α) :=
  (deadlines key).bind (age now)

theorem age_eq_some_iff {elapsed : ℕ} {entry left : ℕ × α} :
    age elapsed entry = some left ↔
      elapsed < entry.1 ∧ (entry.1 - elapsed, entry.2) = left := by
  unfold age
  split <;> simp [*]

/-- An entry is live as long as its deadline has not come. -/
theorem live_eq_some_iff {now : ℕ} {deadlines : κ → Option (ℕ × α)} {key : κ}
    {left : ℕ} {x : α} :
    live now deadlines key = some (left, x) ↔
      0 < left ∧ deadlines key = some (now + left, x) := by
  simp only [live, Option.bind_eq_some_iff, age_eq_some_iff, Prod.mk.injEq]
  constructor
  · rintro ⟨⟨deadline, y⟩, hentry, hlt, hleft, rfl⟩
    have hdeadline : deadline = now + left := by
      dsimp only at hlt hleft
      omega
    have hpos : 0 < left := by
      dsimp only at hlt
      omega
    exact ⟨hpos, by rw [hentry, hdeadline]⟩
  · rintro ⟨hpos, hentry⟩
    exact ⟨(now + left, x), hentry, by omega, by omega, rfl⟩

theorem le_of_live_eq_none {now : ℕ} {deadlines : κ → Option (ℕ × α)} {key : κ}
    (h : live now deadlines key = none) {deadline : ℕ} {x : α}
    (hentry : deadlines key = some (deadline, x)) : deadline ≤ now := by
  by_contra hlt
  have hlive : live now deadlines key = some (deadline - now, x) :=
    live_eq_some_iff.mpr ⟨by omega, by
      rw [hentry, Nat.add_sub_cancel' (by omega)]⟩
  rw [h] at hlive
  cases hlive

theorem bind_age (now elapsed : ℕ) (entry : ℕ × α) :
    (age now entry).bind (age elapsed) = age (now + elapsed) entry := by
  by_cases hnow : now < entry.1
  · simp only [age, if_pos hnow, Option.bind_some, Nat.lt_sub_iff_add_lt',
      Nat.sub_add_eq]
  · have hlater : ¬now + elapsed < entry.1 := by omega
    simp only [age, if_neg hnow, if_neg hlater, Option.bind_none]

/-- Time passes: the deadlines stay as they are. -/
theorem bind_live (now elapsed : ℕ) (deadlines : κ → Option (ℕ × α)) :
    (fun key => (live now deadlines key).bind (age elapsed)) =
      live (now + elapsed) deadlines := by
  funext key
  simp only [live, Option.bind_assoc, bind_age]

/-- An entry is written with the time that it has. -/
theorem update_live [DecidableEq κ] (now : ℕ)
    (deadlines : κ → Option (ℕ × α)) (key : κ) {time : ℕ} (htime : 0 < time)
    (x : α) :
    Function.update (live now deadlines) key (some (time, x)) =
      live now (Function.update deadlines key (some (now + time, x))) := by
  funext k
  by_cases hk : k = key
  · subst hk
    rw [Function.update_self]
    exact (live_eq_some_iff.mpr
      ⟨htime, Function.update_self k _ deadlines⟩).symm
  · rw [Function.update_of_ne hk, live, live, Function.update_of_ne hk]

end Sponge.Support.Expiry
