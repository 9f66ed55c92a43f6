import Mathlib.Data.List.Induction
import Mathlib.Logic.Function.Basic

/-!
# Tables

A table is a function from keys to optional entries.  These are the rules for a
property of all its entries: what it takes to keep it when an entry is written,
removed or changed in its place; and what is found after a number of writes.
-/

namespace Sponge.Support.Table

variable {κ α : Type*} {table : κ → Option α} {P : κ → α → Prop}

theorem forall_insert [DecidableEq κ] (h : ∀ k x, table k = some x → P k x)
    {key : κ} {entry : α} (hentry : P key entry) :
    ∀ k x, Function.update table key (some entry) k = some x → P k x := by
  refine (Function.forall_update_iff table
    (fun k found => ∀ x, found = some x → P k x)).mpr ⟨?_, fun k _ => h k⟩
  intro x hx
  cases hx
  exact hentry

theorem forall_erase [DecidableEq κ] (h : ∀ k x, table k = some x → P k x)
    (key : κ) : ∀ k x, Function.update table key none k = some x → P k x := by
  refine (Function.forall_update_iff table
    (fun k found => ∀ x, found = some x → P k x)).mpr ⟨?_, fun k _ => h k⟩
  intro x hx
  cases hx

/-- Each entry is changed or removed by `f`. -/
theorem forall_bind {f : α → Option α}
    (h : ∀ k x, table k = some x → P k x)
    (hf : ∀ k x x', P k x → f x = some x' → P k x') :
    ∀ k x, (table k).bind f = some x → P k x := by
  intro k x hx
  obtain ⟨before, hbefore, hchange⟩ := Option.bind_eq_some_iff.mp hx
  exact hf k before x (h k before hbefore) hchange

/-- In a table to which entries are written one after the other, the last one that
was written for a key is found. -/
theorem foldl_update_cases [DecidableEq κ] {β : Type*} (key : β → κ)
    (value : β → α) (writes : List β) (k : κ) :
    let table := writes.foldl (fun table write =>
      Function.update table (key write) (some (value write))) (fun _ => none)
    (∃ before write after, writes = before ++ write :: after ∧
        key write = k ∧ (∀ later ∈ after, key later ≠ k) ∧
        table k = some (value write)) ∨
      ((∀ write ∈ writes, key write ≠ k) ∧ table k = none) := by
  induction writes using List.reverseRecOn with
  | nil => exact Or.inr ⟨fun write hmem => absurd hmem List.not_mem_nil, rfl⟩
  | append_singleton writes last ih =>
      simp only [List.foldl_append, List.foldl_cons, List.foldl_nil]
      by_cases hlast : key last = k
      · left
        refine ⟨writes, last, [], rfl, hlast, ?_, ?_⟩
        · intro later hmem
          cases hmem
        · rw [hlast, Function.update_self]
      · rw [Function.update_of_ne (Ne.symm hlast)]
        rcases ih with ⟨before, write, after, rfl, hkey, hafter, hfound⟩ |
          ⟨hnone, hmissing⟩
        · left
          refine ⟨before, write, after ++ [last], ?_, hkey, ?_, hfound⟩
          · rw [List.append_assoc, List.cons_append]
          · intro later hmem
            rcases List.mem_append.mp hmem with hold | hnew
            · exact hafter later hold
            · rw [List.mem_singleton.mp hnew]
              exact hlast
        · right
          refine ⟨?_, hmissing⟩
          intro write hmem
          rcases List.mem_append.mp hmem with hold | hnew
          · exact hnone write hold
          · rw [List.mem_singleton.mp hnew]
            exact hlast

end Sponge.Support.Table
