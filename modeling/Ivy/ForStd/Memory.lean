import Mathlib.Data.List.Basic

/-!
# Flat memory

A block of memory is a total function from addresses to cells, so that a read
behind the end of an array has a value too: the cell that lies there. `load`
and `store` are the two halves of a `memcpy`.
-/

namespace Ivy.Mem

variable {α : Type}

/-- The `n` cells that start at address `p`. -/
def load (m : Nat → α) (p n : Nat) : List α :=
  (List.range' p n).map m

/-- Overwrite the cells from address `o` on with `l`. -/
def store (m : Nat → α) (o : Nat) (l : List α) : Nat → α :=
  fun j => if o ≤ j then l[j - o]?.getD (m j) else m j

/-- What storing `l` at `o` puts into cell `j`. -/
def cell (o : Nat) (l : List α) (j : Nat) : Option α := if o ≤ j then l[j - o]? else none

/-! ## Loading -/

/-- As many cells as asked for. -/
@[simp] theorem length_load (m : Nat → α) (p n : Nat) : (load m p n).length = n := by
  simp [load]

/-- No cells. -/
@[simp] theorem load_zero (m : Nat → α) (p : Nat) : load m p 0 = [] := rfl

/-- The cells in order. -/
theorem getElem?_load (m : Nat → α) {p n i : Nat} (hi : i < n) :
    (load m p n)[i]? = some (m (p + i)) := by
  simp [load, hi]

/-- A block is the list `l` when its cells are, one by one. -/
theorem load_eq_of_getElem? {m : Nat → α} {p : Nat} {l : List α}
    (h : ∀ i x, l[i]? = some x → m (p + i) = x) : load m p l.length = l := by
  apply List.ext_getElem?
  intro i
  by_cases hi : i < l.length
  · rw [getElem?_load m hi, List.getElem?_eq_getElem hi,
      h i l[i] (List.getElem?_eq_getElem hi)]
  · rw [List.getElem?_eq_none (by rw [length_load]; omega),
      List.getElem?_eq_none (by omega)]

/-- The later cells. -/
theorem drop_load (m : Nat → α) (p n i : Nat) : (load m p n).drop i = load m (p + i) (n - i) := by
  simp [load, ← List.map_drop, List.drop_range']

/-- Two ranges next to each other. -/
theorem load_add (m : Nat → α) (p a b : Nat) :
    load m p (a + b) = load m p a ++ load m (p + a) b := by
  -- the addresses of both ranges are those of the whole
  rw [load, ← List.range'_append_1, List.map_append]
  rfl

/-- Memories that agree on a block have the same block. -/
theorem load_congr {m₁ m₂ : Nat → α} {p n : Nat} (h : ∀ j, p ≤ j → j < p + n → m₁ j = m₂ j) :
    load m₁ p n = load m₂ p n := by
  apply List.map_congr_left
  intro j hj
  rw [List.mem_range'_1] at hj
  exact h j hj.1 hj.2

/-! ## Storing -/

/-- Storing nothing. -/
@[simp] theorem store_nil (m : Nat → α) (o : Nat) : store m o [] = m := by
  funext j; simp [store]

/-- Cells in front are left, -/
theorem store_of_lt (m : Nat → α) {o j : Nat} (l : List α) (h : j < o) :
    store m o l j = m j := by
  simp [store, show ¬ o ≤ j by omega]

/-- and cells behind. -/
theorem store_of_ge (m : Nat → α) {o j : Nat} (l : List α) (h : o + l.length ≤ j) :
    store m o l j = m j := by
  simp [store, List.getElem?_eq_none (show l.length ≤ j - o by omega)]

/-- The cells that are stored. -/
theorem store_of_getElem? (m : Nat → α) {o i : Nat} {l : List α} {x : α}
    (h : l[i]? = some x) : store m o l (o + i) = x := by
  simp [store, h]

/-- A store is the same on equal cells. -/
theorem store_congr {m₁ m₂ : Nat → α} {j : Nat} (o : Nat) (l : List α) (h : m₁ j = m₂ j) :
    store m₁ o l j = store m₂ o l j := by
  simp [store, h]

/-- A store is what it writes, over what was there. -/
theorem store_eq_cell (m : Nat → α) (o : Nat) (l : List α) (j : Nat) :
    store m o l j = (cell o l j).getD (m j) := by
  rw [store, cell]
  split <;> rfl

/-- Cells that are not written. -/
theorem cell_eq_none_iff {o : Nat} {l : List α} {j : Nat} :
    cell o l j = none ↔ ¬ (o ≤ j ∧ j < o + l.length) := by
  rw [cell]
  split
  · rw [List.getElem?_eq_none_iff]
    omega
  · simp [*]

/-- Cells that are all written alike. -/
theorem cell_replicate {o n j : Nat} (x : α) (h : o ≤ j ∧ j < o + n) :
    cell o (List.replicate n x) j = some x := by
  rw [cell, if_pos h.1, List.getElem?_replicate, if_pos (by omega)]

/-- Values that are each repeated `r` times. -/
theorem length_flatMap_replicate (f : Nat → α) (n r : Nat) :
    ((List.range n).flatMap fun j => List.replicate r (f j)).length = n * r := by
  induction n with
  | zero => simp
  | succ n ih => simp [List.range_succ, ih, Nat.succ_mul]

/-- Each value `r` times. -/
theorem getElem?_flatMap_replicate (f : Nat → α) {n r i : Nat} (hi : i < n * r) :
    ((List.range n).flatMap fun j => List.replicate r (f j))[i]? = some (f (i / r)) := by
  induction n with
  | zero => omega
  | succ n ih =>
    rw [List.range_succ, List.flatMap_append, List.flatMap_singleton]
    by_cases hlt : i < n * r
    · rw [List.getElem?_append_left (by rwa [length_flatMap_replicate]), ih hlt]
    · -- in the last block
      rw [Nat.succ_mul] at hi
      have hdiv : i / r = n := by
        apply Nat.div_eq_of_lt_le
        · omega
        · rw [Nat.succ_mul]
          omega
      rw [List.getElem?_append_right (by rw [length_flatMap_replicate]; omega),
        length_flatMap_replicate, List.getElem?_replicate, if_pos (by omega), hdiv]

/-! ## Loading what was stored -/

/-- Reading back what was stored. -/
theorem load_store_at (m : Nat → α) (o : Nat) (l : List α) :
    load (store m o l) o l.length = l := by
  apply load_eq_of_getElem?
  intro i x hx
  exact store_of_getElem? m hx

/-- The same at the beginning. -/
theorem load_store (m : Nat → α) (l : List α) : load (store m 0 l) 0 l.length = l :=
  load_store_at m 0 l

/-- Storing what is there changes nothing. -/
theorem store_load_self (m : Nat → α) (p n : Nat) : store m p (load m p n) = m := by
  funext j
  by_cases hj : p ≤ j ∧ j < p + n
  · -- inside the block the value stored is that of the cell
    have hcell := store_of_getElem? m (o := p) (getElem?_load m (p := p) (show j - p < n by omega))
    rwa [show p + (j - p) = j by omega] at hcell
  · rw [store_eq_cell, cell_eq_none_iff.mpr (by rwa [length_load])]
    rfl

/-- A read that may go on behind a stored list begins with the list. -/
theorem take_load_store (m : Nat → α) (l : List α) (n : Nat) :
    (load (store m 0 l) 0 n).take (min l.length n) = l.take (min l.length n) := by
  apply List.ext_getElem?
  intro i
  by_cases hi : i < min l.length n
  · rw [List.getElem?_take_of_lt hi, List.getElem?_take_of_lt hi, getElem?_load _ (by omega)]
    -- the cell is one of the list, which the read has not left yet
    have hcell : l[i]? = some l[i] := List.getElem?_eq_getElem (by omega)
    rw [hcell, store_of_getElem? m hcell]
  · rw [List.getElem?_eq_none (by simp; omega), List.getElem?_eq_none (by simp; omega)]

/-- Two blocks that are stored one behind the other. -/
theorem load_store_store (m : Nat → α) (l₁ l₂ : List α) :
    load (store (store m 0 l₁) l₁.length l₂) 0 (l₁.length + l₂.length) = l₁ ++ l₂ := by
  rw [← List.length_append]
  apply load_eq_of_getElem?
  intro i x hx
  rw [Nat.zero_add]
  -- the second store leaves the cells of the first
  by_cases hi : i < l₁.length
  · rw [List.getElem?_append_left hi] at hx
    rw [store_of_lt _ _ hi]
    simpa using store_of_getElem? m (o := 0) hx
  · rw [List.getElem?_append_right (by omega)] at hx
    have hcell := store_of_getElem? (store m 0 l₁) (o := l₁.length) hx
    rwa [show l₁.length + (i - l₁.length) = i by omega] at hcell

/-! ## Single cells -/

/-- Write single cells, one after the other. -/
def writeAll (m : Nat → α) : List (Nat × α) → Nat → α
  | [] => m
  | w :: ws => writeAll (store m w.1 [w.2]) ws

/-- One cell. -/
theorem store_singleton (m : Nat → α) (o : Nat) (x : α) (a : Nat) :
    store m o [x] a = if a = o then x else m a := by
  split
  · rename_i h
    subst h
    exact store_of_getElem? (i := 0) m rfl
  · rename_i h
    rcases Nat.lt_or_gt_of_ne h with hlt | hgt
    · exact store_of_lt _ _ hlt
    · exact store_of_ge _ _ hgt

/-- A cell that is not written stays. -/
theorem writeAll_of_not_mem {ws : List (Nat × α)} {a : Nat} (m : Nat → α)
    (h : ∀ w ∈ ws, w.1 ≠ a) : writeAll m ws a = m a := by
  induction ws generalizing m with
  | nil => rfl
  | cons w ws ih =>
    rw [writeAll, ih _ fun x hx => h x (List.mem_cons_of_mem w hx), store_singleton,
      if_neg (h w List.mem_cons_self).symm]

/-- A cell that is always written with the same value has it in the end. -/
theorem writeAll_of_mem {ws : List (Nat × α)} {a : Nat} {x : α} (m : Nat → α) (hmem : (a, x) ∈ ws)
    (h : ∀ w ∈ ws, w.1 = a → w.2 = x) : writeAll m ws a = x := by
  induction ws generalizing m with
  | nil => simp at hmem
  | cons w ws ih =>
    have hrest : ∀ y ∈ ws, y.1 = a → y.2 = x := fun y hy => h y (List.mem_cons_of_mem w hy)
    rw [writeAll]
    by_cases hlater : ∃ y ∈ ws, y.1 = a
    · -- a later write decides
      obtain ⟨y, hy, rfl⟩ := hlater
      exact ih _ (hrest y hy rfl ▸ hy) hrest
    · -- no later write: the first one is the only one and stays
      rw [writeAll_of_not_mem _ fun y hy hya => hlater ⟨y, hy, hya⟩, store_singleton]
      have hfirst : (a, x) = w :=
        (List.mem_cons.mp hmem).resolve_right fun hin => hlater ⟨_, hin, rfl⟩
      rw [← hfirst, if_pos rfl]

end Ivy.Mem
