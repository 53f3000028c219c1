import Mathlib.Data.List.Basic

/-!
# A mutex shared by two threads

`OwnedBy x y inX inY m` says that the mutex state `m` records which of the threads
`x` and `y` is inside its critical section, and that they are not both inside.
-/

namespace Ivy.Mutex

variable {τ : Type} {x y : τ} {inX inY : Bool} {m : Option τ}

/-- The owner is the thread inside its critical section. -/
structure OwnedBy (x y : τ) (inX inY : Bool) (m : Option τ) : Prop where
  owner : m = if inX then some x else if inY then some y else none
  one : inX = true → inY = false

namespace OwnedBy

/-- A free mutex is held by no one. -/
theorem outside (h : OwnedBy x y inX inY none) : inX = false ∧ inY = false := by
  have howner := h.owner
  cases inX with
  | true => exact nomatch howner
  | false =>
    cases inY with
    | true => exact nomatch howner
    | false => exact ⟨rfl, rfl⟩

/-- When no one holds it the mutex is free. -/
theorem eq_none (h : OwnedBy x y false false m) : m = none := h.owner

/-- The first owner takes a free mutex, -/
theorem acquireLeft (h : OwnedBy x y inX inY none) : OwnedBy x y true inY (some x) :=
  ⟨rfl, fun _ => h.outside.2⟩

/-- and the second one. -/
theorem acquireRight (h : OwnedBy x y inX inY none) : OwnedBy x y inX true (some y) := by
  rw [h.outside.1]
  exact ⟨rfl, nofun⟩

/-- While the second owner holds it the first does not. -/
theorem left_eq_false (h : OwnedBy x y inX true m) : inX = false := by
  cases inX with
  | false => rfl
  | true => exact nomatch h.one rfl

/-- The first owner gives it back, -/
theorem releaseLeft (h : OwnedBy x y true inY m) : OwnedBy x y false inY none := by
  -- the second thread is outside while the first is inside
  rw [h.one rfl]
  exact ⟨rfl, nofun⟩

/-- and the second one. -/
theorem releaseRight (h : OwnedBy x y inX true m) : OwnedBy x y inX false none := by
  rw [h.left_eq_false]
  exact ⟨rfl, nofun⟩

end OwnedBy

end Ivy.Mutex
