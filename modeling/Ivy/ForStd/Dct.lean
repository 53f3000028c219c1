import Mathlib.Analysis.SpecialFunctions.Trigonometric.Basic
import Mathlib.Algebra.Order.BigOperators.Group.Finset
import Mathlib.Tactic.IntervalCases

/-!
# The inverse discrete cosine transform

The inverse DCT of 8 times 8 coefficients as real numbers, in the normalization that is used for
pictures, with a table of its values in millionths. A transform of this kind is separable: it is
calculated column by column and then row by row. The error of two such passes in integer arithmetic
is bounded here for any matrix.
-/

namespace Ivy.Dct

open Finset Real

/-! ## The transform -/

/-- The first coefficient of each direction has less weight. -/
noncomputable def weight (k : ℕ) : ℝ := if k = 0 then 1 / √2 else 1

/-- The value in row `r` and column `c`. The coefficients are numbered by the vertical and the
    horizontal frequency. -/
noncomputable def inverse (F : ℕ → ℕ → ℝ) (r c : ℕ) : ℝ :=
  1 / 4 * ∑ u ∈ range 8, ∑ v ∈ range 8, weight u * weight v * F u v *
    cos ((2 * r + 1) * u * π / 16) * cos ((2 * c + 1) * v * π / 16)

/-- What frequency `k` contributes to place `n` of a row or column. -/
noncomputable def basis (n k : ℕ) : ℝ := √2 * weight k * cos ((2 * n + 1) * k * π / 16)

/-- The transform is a product of one matrix for the columns and one for the rows. -/
theorem inverse_eq (F : ℕ → ℕ → ℝ) (r c : ℕ) :
    inverse F r c = 1 / 8 * ∑ u ∈ range 8, ∑ v ∈ range 8, basis r u * basis c v * F u v := by
  -- each basis has a factor `√2`, which turns the eighth into the quarter
  have h2 : √2 * √2 = 2 := mul_self_sqrt (by norm_num)
  rw [inverse, mul_sum, mul_sum]
  refine sum_congr rfl fun u _ => ?_
  rw [mul_sum, mul_sum]
  refine sum_congr rfl fun v _ => ?_
  simp only [basis]
  linear_combination (1 / 8 * weight u * weight v * F u v * cos ((2 * r + 1) * u * π / 16) *
    cos ((2 * c + 1) * v * π / 16)) * (-h2)

/-- The place of a coefficient in the zigzag order, which goes through the diagonals upwards and
    downwards by turns. -/
def scanIndex (u v : ℕ) : ℕ :=
  let d := u + v
  let i := if d % 2 = 0 then v else u
  if d < 8 then d * (d + 1) / 2 + i else 64 - (15 - d) * (16 - d) / 2 + (i - (d - 7))

/-! ## Its values in millionths -/

/-- `√2` times the cosine of `m * π / 16`, for the first quarter of the circle. -/
def quarter (m : ℕ) : ℤ :=
  [1414214, 1387040, 1306563, 1175876, 1000000, 785695, 541196, 275899, 0].getD m 0

/-- The same for the whole circle, and on. -/
def cosine (m : ℕ) : ℤ :=
  let j := m % 32
  if j ≤ 8 then quarter j
  else if j ≤ 16 then -quarter (16 - j)
  else if j ≤ 24 then -quarter (j - 16)
  else quarter (32 - j)

/-- From the square of a number to the number itself. -/
theorem near_of_sq {a s t : ℝ} (ha : 0 ≤ a) (hsq : a ^ 2 = s) (hlow : (t - 1) ^ 2 ≤ 10 ^ 12 * s)
    (hhigh : 10 ^ 12 * s ≤ (t + 1) ^ 2) (ht : 0 ≤ t) : |10 ^ 6 * a - t| ≤ 1 := by
  have hsq' : (10 ^ 6 * a) ^ 2 = 10 ^ 12 * s := by rw [mul_pow, hsq]; norm_num
  rw [← hsq'] at hlow hhigh
  have h1 := le_of_sq_le_sq hlow (by positivity)
  have h2 := le_of_sq_le_sq hhigh (by positivity)
  rw [abs_le]
  constructor <;> linarith

/-- Bounds for the root of two, -/
theorem sqrt_two_near : 1.41421356 ≤ √2 ∧ √2 ≤ 1.41421357 :=
  ⟨le_sqrt_of_sq_le (by norm_num), sqrt_le_iff.mpr ⟨by norm_num, by norm_num⟩⟩

/-- for the cosine -/
theorem cos_pi_div_eight_near : 0.92387952 ≤ cos (π / 8) ∧ cos (π / 8) ≤ 0.92387954 := by
  obtain ⟨hlow, hhigh⟩ := sqrt_two_near
  rw [cos_pi_div_eight]
  have h1 : (1.84775904 : ℝ) ≤ √(2 + √2) := le_sqrt_of_sq_le (by norm_num at hlow ⊢; linarith)
  have h2 : √(2 + √2) ≤ (1.84775908 : ℝ) :=
    sqrt_le_iff.mpr ⟨by norm_num, by norm_num at hhigh ⊢; linarith⟩
  constructor <;> linarith

/-- and for the sine of the eighth part of the half circle. -/
theorem sin_pi_div_eight_near : 0.38268342 ≤ sin (π / 8) ∧ sin (π / 8) ≤ 0.38268344 := by
  obtain ⟨hlow, hhigh⟩ := sqrt_two_near
  rw [sin_pi_div_eight]
  have h1 : (0.76536684 : ℝ) ≤ √(2 - √2) := le_sqrt_of_sq_le (by norm_num at hhigh ⊢; linarith)
  have h2 : √(2 - √2) ≤ (0.76536688 : ℝ) :=
    sqrt_le_iff.mpr ⟨by norm_num, by norm_num at hlow ⊢; linarith⟩
  constructor <;> linarith

/-- The cosines of the eighths that are not in the tables. -/
theorem cos_eighths : cos (2 * π / 8) = √2 / 2 ∧ cos (3 * π / 8) = sin (π / 8) ∧
    cos (4 * π / 8) = 0 ∧ cos (5 * π / 8) = -sin (π / 8) ∧ cos (6 * π / 8) = -(√2 / 2) ∧
    cos (7 * π / 8) = -cos (π / 8) := by
  refine ⟨?_, ?_, ?_, ?_, ?_, ?_⟩
  · rw [show 2 * π / 8 = π / 4 by ring, cos_pi_div_four]
  · rw [show 3 * π / 8 = π / 2 - π / 8 by ring, cos_pi_div_two_sub]
  · rw [show 4 * π / 8 = π / 2 by ring, cos_pi_div_two]
  · rw [show 5 * π / 8 = π / 8 + π / 2 by ring, cos_add_pi_div_two]
  · rw [show 6 * π / 8 = π - π / 4 by ring, cos_pi_sub, cos_pi_div_four]
  · rw [show 7 * π / 8 = π - π / 8 by ring, cos_pi_sub]

/-- The first quarter: the square is `1 + cos (m * π / 8)`. -/
theorem quarter_near {m : ℕ} (hm : m ≤ 8) :
    |10 ^ 6 * (√2 * cos (m * π / 16)) - quarter m| ≤ 1 := by
  rcases Nat.eq_or_lt_of_le hm with rfl | hlt
  · -- an entry of zero is out of reach of `near_of_sq`
    rw [show ((8 : ℕ) : ℝ) * π / 16 = π / 2 by push_cast; ring, cos_pi_div_two]
    norm_num [quarter]
  have hcos : 0 ≤ cos (m * π / 16) := by
    have hm' : (m : ℝ) ≤ 8 := by exact_mod_cast hm
    refine cos_nonneg_of_mem_Icc ⟨?_, ?_⟩ <;> nlinarith [pi_pos]
  have hsq : (√2 * cos (m * π / 16)) ^ 2 = 1 + cos (m * π / 8) := by
    rw [mul_pow, sq_sqrt (by norm_num), cos_sq, show 2 * (m * π / 16) = m * π / 8 by ring]
    ring
  have hnonneg : 0 ≤ √2 * cos (m * π / 16) := by positivity
  obtain ⟨h2, h3, h4, h5, h6, h7⟩ := cos_eighths
  obtain ⟨h2low, h2high⟩ := sqrt_two_near
  obtain ⟨hclow, hchigh⟩ := cos_pi_div_eight_near
  obtain ⟨hslow, hshigh⟩ := sin_pi_div_eight_near
  -- with the cosines of the eighths every square is an expression in `√2`, `x` and `y`, so that
  -- bounds for these three are enough
  generalize √2 * cos (m * π / 16) = a at hsq hnonneg
  generalize h1 : cos (π / 8) = x at h7 hclow hchigh
  generalize sin (π / 8) = y at h3 h5 hslow hshigh
  interval_cases m <;>
    simp only [Nat.cast_zero, Nat.cast_one, Nat.cast_ofNat, zero_mul, one_mul, zero_div, cos_zero,
      h1, h2, h3, h4, h5, h6, h7] at hsq <;>
    refine near_of_sq hnonneg hsq ?_ ?_ ?_ <;> norm_num [quarter] <;> linarith

/-- Two angles that add up to half a circle. -/
theorem cos_half_sub {m : ℕ} (hm : m ≤ 16) :
    cos (m * π / 16) = -cos ((16 - m : ℕ) * π / 16) := by
  rw [Nat.cast_sub hm, ← cos_pi_sub]
  congr 1
  push_cast
  ring

/-- Half a circle further on. -/
theorem cos_sub_half {m : ℕ} (hm : 16 ≤ m) :
    cos (m * π / 16) = -cos ((m - 16 : ℕ) * π / 16) := by
  rw [Nat.cast_sub hm, ← cos_add_pi]
  congr 1
  push_cast
  ring

/-- Two angles that add up to the whole circle. -/
theorem cos_whole_sub {m : ℕ} (hm : m ≤ 32) :
    cos (m * π / 16) = cos ((32 - m : ℕ) * π / 16) := by
  rw [Nat.cast_sub hm, ← cos_two_pi_sub]
  congr 1
  push_cast
  ring

/-- The circle is gone round as often as it takes. -/
theorem cos_mod (m : ℕ) : cos (m * π / 16) = cos ((m % 32 : ℕ) * π / 16) := by
  conv_lhs => rw [← Nat.div_add_mod m 32]
  rw [← cos_add_nat_mul_two_pi ((m % 32 : ℕ) * π / 16) (m / 32)]
  congr 1
  push_cast
  ring

/-- The table is exact to a millionth. -/
theorem cosine_near (m : ℕ) : |10 ^ 6 * (√2 * cos (m * π / 16)) - cosine m| ≤ 1 := by
  have hlt : m % 32 < 32 := Nat.mod_lt _ (by decide)
  rw [cos_mod, cosine]
  generalize m % 32 = j at hlt
  -- one quarter after the other
  have hneg : ∀ {a b : ℝ}, |a - b| ≤ 1 → |-a - -b| ≤ 1 := by
    intro a b h
    rwa [neg_sub_neg, abs_sub_comm]
  split
  · exact quarter_near (by omega)
  · split
    · have h := hneg (quarter_near (m := 16 - j) (by omega))
      rw [cos_half_sub (by omega)]
      push_cast at h ⊢
      convert h using 2
      ring
    · split
      · have h := hneg (quarter_near (m := j - 16) (by omega))
        rw [cos_sub_half (by omega)]
        push_cast at h ⊢
        convert h using 2
        ring
      · rw [cos_whole_sub (by omega)]
        exact quarter_near (by omega)

/-- The table of the basis. -/
def basisTable (n k : ℕ) : ℤ := if k = 0 then 10 ^ 6 else cosine ((2 * n + 1) * k)

/-- It is exact to a millionth. -/
theorem basis_near (n k : ℕ) : |10 ^ 6 * basis n k - basisTable n k| ≤ 1 := by
  rw [basis, weight, basisTable]
  split
  · rename_i hk
    -- the weight makes frequency zero constant
    have h2 : √2 * (1 / √2) = 1 := mul_one_div_cancel (by norm_num)
    rw [h2, hk, Nat.cast_zero, mul_zero, zero_mul, zero_div, cos_zero]
    norm_num
  · have h := cosine_near ((2 * n + 1) * k)
    push_cast at h
    rwa [mul_one]

/-- No value is above the root of two. -/
theorem abs_basis_le (n k : ℕ) : |basis n k| ≤ 1.42 := by
  obtain ⟨-, hhigh⟩ := sqrt_two_near
  have hw : |weight k| ≤ 1 := by
    rw [weight]
    split
    · have h1 : 1 ≤ √2 := one_le_sqrt.mpr (by norm_num)
      rw [abs_of_nonneg (by positivity)]
      exact (div_le_one (by positivity)).mpr h1
    · simp
  have hcos := abs_cos_le_one ((2 * n + 1) * k * π / 16)
  have hprod : |weight k| * |cos ((2 * n + 1) * k * π / 16)| ≤ 1 :=
    mul_le_one₀ hw (abs_nonneg _) hcos
  rw [basis, mul_assoc, abs_mul, abs_mul, abs_of_nonneg (sqrt_nonneg 2)]
  nlinarith [sqrt_nonneg 2]

/-- The product of two values, from the table. -/
theorem basis_mul_near (r u c v : ℕ) :
    |10 ^ 12 * (basis r u * basis c v) - basisTable r u * basisTable c v| ≤ 3 * 10 ^ 6 := by
  -- the error of each factor comes in with the size of the other
  have h1 := basis_near r u
  have h2 := basis_near c v
  have hu := abs_basis_le r u
  have hv := abs_basis_le c v
  rw [abs_le] at h1 h2 hu hv ⊢
  constructor <;> nlinarith

/-! ## Two passes in integer arithmetic -/

section

variable {N : ℕ} {A : ℕ → ℕ → ℤ} {d e w z : ℤ} {x : ℕ → ℕ → ℤ} {y : ℕ → ℤ} {r c : ℕ}

/-- If the columns and then the row are transformed with errors of at most `e`, all in units of
    `1 / d`, then the errors of the columns come in with the weights of the row. -/
theorem two_passes (hcol : ∀ v < N, |d * y v - ∑ u ∈ range N, A r u * x u v| ≤ e)
    (hrow : |d * z - ∑ v ∈ range N, A c v * y v| ≤ e) (hd : 0 ≤ d) (he : 0 ≤ e)
    (hw : ∑ v ∈ range N, |A c v| ≤ w) :
    |d * d * z - ∑ u ∈ range N, ∑ v ∈ range N, A r u * A c v * x u v| ≤ e * (d + w) := by
  -- the error of the row, and those of the columns
  have hsplit : d * d * z - ∑ u ∈ range N, ∑ v ∈ range N, A r u * A c v * x u v =
      d * (d * z - ∑ v ∈ range N, A c v * y v) +
        ∑ v ∈ range N, A c v * (d * y v - ∑ u ∈ range N, A r u * x u v) := by
    have hswap : ∑ u ∈ range N, ∑ v ∈ range N, A r u * A c v * x u v =
        ∑ v ∈ range N, A c v * ∑ u ∈ range N, A r u * x u v := by
      rw [sum_comm]
      refine sum_congr rfl fun v _ => ?_
      rw [mul_sum]
      exact sum_congr rfl fun u _ => by ring
    simp only [hswap, mul_sub, sum_sub_distrib, mul_sum]
    have hterm : ∑ v ∈ range N, A c v * (d * y v) = ∑ v ∈ range N, d * (A c v * y v) :=
      sum_congr rfl fun v _ => by ring
    rw [hterm]
    ring
  have hsum : |∑ v ∈ range N, A c v * (d * y v - ∑ u ∈ range N, A r u * x u v)| ≤ w * e := by
    calc _ ≤ ∑ v ∈ range N, |A c v * (d * y v - ∑ u ∈ range N, A r u * x u v)| :=
          abs_sum_le_sum_abs _ _
      _ ≤ ∑ v ∈ range N, |A c v| * e := by
          refine sum_le_sum fun v hv => ?_
          rw [abs_mul]
          exact mul_le_mul_of_nonneg_left (hcol v (mem_range.mp hv)) (abs_nonneg _)
      _ ≤ w * e := by
          rw [← sum_mul]
          exact mul_le_mul_of_nonneg_right hw he
  rw [hsplit]
  calc _ ≤ |d * (d * z - ∑ v ∈ range N, A c v * y v)| + _ := abs_add_le _ _
    _ ≤ d * e + w * e := by
        rw [abs_mul, abs_of_nonneg hd]
        exact add_le_add (mul_le_mul_of_nonneg_left hrow hd) hsum
    _ = e * (d + w) := by ring

end

end Ivy.Dct
