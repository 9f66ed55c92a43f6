import Mathlib.Data.List.Basic

/-!
# Bounded queues

A queue of at most `capacity` items that can be closed.  What does not fit is
refused when it is added, and nothing else is ever lost.
-/

namespace Sponge.Support

structure BoundedQueue (α : Type*) where
  capacity : ℕ
  items : List α
  closed : Bool
  length_le : items.length ≤ capacity

namespace BoundedQueue

variable {α : Type*}

@[ext] theorem ext {q q' : BoundedQueue α} (hcapacity : q.capacity = q'.capacity)
    (hitems : q.items = q'.items) (hclosed : q.closed = q'.closed) : q = q' := by
  cases q
  cases q'
  dsimp only at hcapacity hitems hclosed
  subst hcapacity hitems hclosed
  rfl

def empty (capacity : ℕ) : BoundedQueue α where
  capacity := capacity
  items := []
  closed := false
  length_le := Nat.zero_le _

/-- The number of items that still fit. -/
def room (q : BoundedQueue α) : ℕ := q.capacity - q.items.length

/-- Add as many of the items as fit. -/
def push (q : BoundedQueue α) (data : List α) : BoundedQueue α :=
  { q with
    items := q.items ++ data.take (min data.length q.room)
    length_le := by
      have hle := q.length_le
      simp only [List.length_append, List.length_take, room]
      omega }

/-- The first `n` items, or all if there are fewer. -/
def front (q : BoundedQueue α) (n : ℕ) : List α :=
  q.items.take (min n q.items.length)

/-- Remove the first `n` items, or all if there are fewer. -/
def pop (q : BoundedQueue α) (n : ℕ) : BoundedQueue α :=
  { q with
    items := q.items.drop (min n q.items.length)
    length_le := by
      have hle := q.length_le
      rw [List.length_drop]
      omega }

def close (q : BoundedQueue α) : BoundedQueue α :=
  { q with closed := true }

/-- Closed and empty: nothing will ever come out again. -/
def exhausted (q : BoundedQueue α) : Bool := q.closed && q.items.isEmpty

end BoundedQueue
end Sponge.Support
