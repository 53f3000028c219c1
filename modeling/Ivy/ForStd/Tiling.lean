import Mathlib.Data.List.Basic

/-!
# Tiling a rectangle row by row

Rectangles of the plane with integer corners. A row is a list of rectangles of one height, each
beginning where the one before it ends; a grid is a list of rows, one below the other. The
rectangles of a grid are disjoint and fill the rectangle around it.
-/

namespace Ivy

structure Rect where
  x : Int
  y : Int
  width : Int
  height : Int
  deriving DecidableEq, Repr

namespace Rect

/-- The point lies in the rectangle. -/
def Covers (r : Rect) (px py : Int) : Prop :=
  (r.x ≤ px ∧ px < r.x + r.width) ∧ r.y ≤ py ∧ py < r.y + r.height

/-- No point lies in both. -/
def Disjoint (r₁ r₂ : Rect) : Prop := ∀ px py, ¬ (r₁.Covers px py ∧ r₂.Covers px py)

end Rect

/-- Rectangles at `y` of the height `h`, side by side from `x` to `x'`. -/
inductive Row (y h : Int) : Int → Int → List Rect → Prop
  | nil (x : Int) : Row y h x x []
  | cons {x x' w : Int} {rects : List Rect} :
      0 ≤ w → Row y h (x + w) x' rects → Row y h x x' (⟨x, y, w, h⟩ :: rects)

/-- Rows from `x` to `x'`, one below the other from `y` to `y'`. -/
inductive Grid (x x' : Int) : Int → Int → List Rect → Prop
  | nil (y : Int) : Grid x x' y y []
  | row {y y' h : Int} {row rects : List Rect} :
      0 ≤ h → Row y h x x' row → Grid x x' (y + h) y' rects → Grid x x' y y' (row ++ rects)

section

variable {x x' y y' h : Int} {rects : List Rect}

/-- A row does not go back. -/
theorem Row.le (hr : Row y h x x' rects) : x ≤ x' := by
  induction hr with
  | nil x => exact Int.le_refl x
  | cons hw _ ih => omega

/-- The rectangles of a row cover it. -/
theorem Row.covers_iff (hr : Row y h x x' rects) (px py : Int) :
    (∃ r ∈ rects, r.Covers px py) ↔ (x ≤ px ∧ px < x') ∧ y ≤ py ∧ py < y + h := by
  induction hr with
  | nil x =>
    constructor
    · rintro ⟨r, hr, -⟩
      exact absurd hr List.not_mem_nil
    · omega
  | @cons x x' w rects hw hrest ih =>
    -- the first rectangle, or one of those on its right
    have hle := hrest.le
    rw [List.exists_mem_cons_iff, ih]
    simp only [Rect.Covers]
    omega

/-- The rectangles of a row lie between its ends. -/
theorem Row.disjoint (hr : Row y h x x' rects) : rects.Pairwise Rect.Disjoint := by
  induction hr with
  | nil x => exact List.Pairwise.nil
  | cons hw hrest ih =>
    -- a point of the first rectangle lies to the left of the others
    refine List.Pairwise.cons (fun r hr px py hboth => ?_) ih
    have hin := (hrest.covers_iff px py).mp ⟨r, hr, hboth.2⟩
    have hfirst := hboth.1
    simp only [Rect.Covers] at hfirst
    omega

/-- A grid does not go back. -/
theorem Grid.le (hg : Grid x x' y y' rects) : y ≤ y' := by
  induction hg with
  | nil y => exact Int.le_refl y
  | row hh _ _ ih => omega

/-- The rectangles of a grid cover it. -/
theorem Grid.covers_iff (hg : Grid x x' y y' rects) (px py : Int) :
    (∃ r ∈ rects, r.Covers px py) ↔ (x ≤ px ∧ px < x') ∧ y ≤ py ∧ py < y' := by
  induction hg with
  | nil y =>
    constructor
    · rintro ⟨r, hr, -⟩
      exact absurd hr List.not_mem_nil
    · omega
  | row hh hrow hrest ih =>
    -- the first row, or one of those below
    have hle := hrest.le
    simp only [List.mem_append, or_and_right, exists_or]
    rw [hrow.covers_iff, ih]
    omega

/-- No two of them overlap. -/
theorem Grid.disjoint (hg : Grid x x' y y' rects) : rects.Pairwise Rect.Disjoint := by
  induction hg with
  | nil y => exact List.Pairwise.nil
  | row hh hrow hrest ih =>
    refine List.pairwise_append.mpr ⟨hrow.disjoint, ih, ?_⟩
    -- a point of the first row lies above the others
    intro r hr r' hr' px py hboth
    have hupper := (hrow.covers_iff px py).mp ⟨r, hr, hboth.1⟩
    have hlower := (hrest.covers_iff px py).mp ⟨r', hr', hboth.2⟩
    omega

end

end Ivy
