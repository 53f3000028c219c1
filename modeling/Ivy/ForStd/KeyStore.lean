import Mathlib.Data.List.Basic
import Mathlib.Logic.Function.Basic

/-!
# Stores with one value for each key

Commands that each change the value of at most one key, the new value depending on the
old one of that key only, can be executed in any order as long as no two of them change
the same key.
-/

namespace Ivy.Store

variable {κ ν β : Type} [DecidableEq κ] {cell : β → Option κ} {new : β → ν → ν} {p : κ → ν}

/-- Execute a command: `cell` is the key it changes, `new` the value it puts there. -/
def execute (cell : β → Option κ) (new : β → ν → ν) (p : κ → ν) (b : β) : κ → ν :=
  match cell b with
  | none => p
  | some k => Function.update p k (new b (p k))

/-- A command without a key changes nothing. -/
theorem execute_none {b : β} (h : cell b = none) : execute cell new p b = p := by
  unfold execute
  rw [h]

/-- A command changes its key, -/
theorem execute_some {b : β} {k : κ} (h : cell b = some k) :
    execute cell new p b = Function.update p k (new b (p k)) := by
  unfold execute
  rw [h]

/-- and leaves the others. -/
theorem execute_of_ne {b : β} {k : κ} (h : cell b ≠ some k) : execute cell new p b k = p k := by
  cases hb : cell b with
  | none => rw [execute_none hb]
  | some k' =>
    rw [execute_some hb, Function.update_of_ne]
    rintro rfl
    exact h hb

/-- Commands for different keys commute. -/
theorem execute_comm {a b : β} (h : ∀ k, cell a = some k → cell b ≠ some k) :
    execute cell new (execute cell new p a) b = execute cell new (execute cell new p b) a := by
  cases ha : cell a with
  | none => rw [execute_none ha, execute_none ha]
  | some k =>
    cases hb : cell b with
    | none => rw [execute_none hb, execute_none hb]
    | some k' =>
      -- both have a key, and each reads its own only
      have hne : k ≠ k' := fun heq => h k ha (heq ▸ hb)
      rw [execute_some hb, execute_some ha, execute_some ha, execute_some hb,
        Function.update_of_ne hne, Function.update_of_ne hne.symm, Function.update_comm hne]

/-- The order of commands that change different keys does not matter. -/
theorem foldl_execute_perm {xs ys : List β} (hperm : xs.Perm ys)
    (hcells : ∀ a ∈ xs, ∀ b ∈ xs, a ≠ b → ∀ k, cell a = some k → cell b ≠ some k) (p : κ → ν) :
    xs.foldl (execute cell new) p = ys.foldl (execute cell new) p := by
  -- a permutation is made of swaps, and each swap is of two different commands or none
  apply hperm.foldl_eq'
  intro a ha b hb p
  by_cases hab : a = b
  · rw [hab]
  · exact execute_comm (hcells a ha b hb hab)

/-- A key that no command of the list changes keeps its value. -/
theorem foldl_execute_of_ne {xs : List β} {k : κ} (h : ∀ b ∈ xs, cell b ≠ some k) (p : κ → ν) :
    xs.foldl (execute cell new) p k = p k := by
  induction xs generalizing p with
  | nil => rfl
  | cons b xs ih =>
    rw [List.foldl_cons, ih fun b' hb' => h b' (List.mem_cons_of_mem _ hb')]
    exact execute_of_ne (h b List.mem_cons_self)

end Ivy.Store
