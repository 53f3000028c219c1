import Ivy.ForStd.Dct
import Ivy.Spec.JpegColor
import Ivy.Spec.JpegTransform

/-!
# The samples of a block

The samples of a block are compared with the inverse DCT of the standard, in real numbers, for the
coefficients and quantization values of the file. Three things keep them apart: the products are
rounded down, the constants have eight fraction bits, and the prescaled quantization values are
rounded down as well. The last one depends on the coefficients.

## Key results

- `gain_basis`: the constants of the decoder are those of the inverse DCT, to a thousandth
- `sample_accurate`: how far a sample can be from the exact one
-/

namespace Ivy.Spec

open Ivy.Native Finset

/-! ## What the samples should be -/

/-- The coefficient of a vertical and a horizontal frequency. The list is in zigzag order. -/
def coefficient (coefs : List Int) (u v : Nat) : Int := coefs.getD (Dct.scanIndex u v) 0

/-- Its quantization value in table `t`, which is in the same order. -/
def quantizer (quant : Nat → Int16) (t u v : Nat) : Nat :=
  (quant (t * 64 + Dct.scanIndex u v)).toUInt16.toNat

/-- The inverse DCT of the dequantized coefficients, shifted by 128 and limited to eight bits. -/
noncomputable def exactSample (quant : Nat → Int16) (t : Nat) (coefs : List Int) (r c : Nat) : ℝ :=
  max 0 (min 255 (128 +
    Dct.inverse (fun u v => coefficient coefs u v * quantizer quant t u v) r c))

/-- The dequantized coefficients without their signs, taken together. -/
def amplitude (quant : Nat → Int16) (t : Nat) (coefs : List Int) : Nat :=
  ∑ u ∈ range 8, ∑ v ∈ range 8, (coefficient coefs u v).natAbs * quantizer quant t u v

/-- What a value of each frequency contributes to a pass at most, in parts of 256. -/
def peak (k : Nat) : Nat := [256, 256, 256, 302, 256, 452, 618, 1287].getD k 0

/-- What can be lost because the prescaled quantization values are rounded down, in parts of
    2 ^ 21. -/
def loss (coefs : List Int) : Nat :=
  ∑ u ∈ range 8, ∑ v ∈ range 8, (coefficient coefs u v).natAbs * (peak u * peak v)

/-! ## The tables -/

/-- The scale factor of a place. -/
def scaleAt (u v : Nat) : Int := (iScaleBits.getD (8 * u + v) 0).toInt

/-- The scale factors are positive and have 15 bits. -/
theorem scaleAt_bound (u v : Nat) : 0 ≤ scaleAt u v ∧ scaleAt u v < 2 ^ 15 := iScaleBits_lt _

/-- For all places and frequencies, what a coefficient can contribute to a value behind the rows. Up
    to a thousandth, the matrices of both passes and the scale factor come to the product of the two
    cosines. -/
theorem gain_gain_scale : ∀ r < 8, ∀ u < 8, ∀ c < 8, ∀ v < 8,
    (gain r u * gain c v).natAbs * (scaleAt u v).natAbs ≤ 504476 * 4096 ∧
      |gain r u * gain c v * scaleAt u v * 10 ^ 12 -
        Dct.basisTable r u * Dct.basisTable c v * 2 ^ 30| ≤ (10 ^ 9 - 3 * 10 ^ 6) * 2 ^ 30 := by
  decide +kernel

/-- What a coefficient can contribute to a value behind the columns: the first value of a row goes
    into all of its samples. -/
theorem gain_scale {r u v : Nat} (hr : r < 8) (hu : u < 8) (hv : v < 8) :
    (gain r u).natAbs * (scaleAt u v).natAbs ≤ 1971 * 4096 := by
  -- the bound of both passes, for the first sample of the row
  have hfirst : ∀ v < 8, gain 0 v = 256 := by decide
  have hboth := (gain_gain_scale r hr u hu 0 (by decide) v hv).1
  rw [hfirst v hv, Int.natAbs_mul, show Int.natAbs 256 = 256 from rfl] at hboth
  nlinarith

/-- The sum of a row of the matrix, for the errors of the columns. -/
theorem gain_row {c : Nat} (hc : c < 8) : ∑ v ∈ range 8, |gain c v| ≤ 2916 := by
  simp only [sum_range_succ, sum_range_zero]
  interval_cases c <;> decide

/-- The largest entries of the matrix. -/
theorem gain_le_peak : ∀ r < 8, ∀ u < 8, |gain r u| ≤ peak u := by
  decide

/-- The zigzag order of the decoder is that of the standard. -/
theorem scanIndex_place : ∀ u < 8, ∀ v < 8,
    Dct.scanIndex u v < 64 ∧ unzigzag (Dct.scanIndex u v) = 8 * u + v := by
  decide

/-! ## The coefficients in the machine -/

/-- A dequantized coefficient, as the machine has it. -/
def scaled (quant : Nat → Int16) (t : Nat) (coefs : List Int) (u v : Nat) : Int :=
  coefficient coefs u v * (quantizer quant t u v * scaleAt u v / 4096)

/-- A factor and a scale factor, with the product rounded down. -/
theorem mul_scaled_le {g s : Int} {K : Nat} (d : Int) (q : Nat) (hs : 0 ≤ s)
    (h : g.natAbs * s.natAbs ≤ K * 4096) :
    (g * (d * (q * s / 4096))).natAbs ≤ K * (d.natAbs * q) := by
  obtain ⟨n, rfl⟩ := Int.eq_ofNat_of_zero_le hs
  rw [Int.natAbs_natCast] at h
  have hdiv : ((q : Int) * n / 4096).natAbs = q * n / 4096 := rfl
  -- rounding down makes the product smaller
  have hprod : g.natAbs * (q * n / 4096) ≤ K * q := by
    have hle := Nat.div_mul_le_self (q * n) 4096
    have h1 := Nat.mul_le_mul_left g.natAbs hle
    have h2 := Nat.mul_le_mul_right q h
    nlinarith
  -- the coefficient is a common factor of both sides
  rw [Int.natAbs_mul, Int.natAbs_mul, hdiv]
  calc g.natAbs * (d.natAbs * (q * n / 4096)) = d.natAbs * (g.natAbs * (q * n / 4096)) := by ring
    _ ≤ d.natAbs * (K * q) := Nat.mul_le_mul_left _ hprod
    _ = K * (d.natAbs * q) := by ring

section

variable {quant : Nat → Int16} {t : Nat} {coefs : List Int}

/-- One coefficient is part of the sum, -/
theorem term_le_amplitude (quant : Nat → Int16) (t : Nat) (coefs : List Int) {u v : Nat}
    (hu : u < 8) (hv : v < 8) :
    (coefficient coefs u v).natAbs * quantizer quant t u v ≤ amplitude quant t coefs :=
  calc _ ≤ ∑ v ∈ range 8, (coefficient coefs u v).natAbs * quantizer quant t u v :=
        single_le_sum (f := fun v => (coefficient coefs u v).natAbs * quantizer quant t u v)
          (fun _ _ => Nat.zero_le _) (mem_range.mpr hv)
    _ ≤ _ := single_le_sum
        (f := fun u => ∑ v ∈ range 8, (coefficient coefs u v).natAbs * quantizer quant t u v)
        (fun _ _ => Nat.zero_le _) (mem_range.mpr hu)

/-- and so is a column. -/
theorem column_le_amplitude {v : Nat} (hv : v < 8) :
    ∑ u ∈ range 8, (coefficient coefs u v).natAbs * quantizer quant t u v ≤
      amplitude quant t coefs :=
  sum_le_sum fun u _ =>
    single_le_sum (f := fun v => (coefficient coefs u v).natAbs * quantizer quant t u v)
      (fun _ _ => Nat.zero_le _) (mem_range.mpr hv)

/-- The values of a column are small. -/
theorem column_bound {r v : Nat} (hr : r < 8) (hv : v < 8) (hamp : amplitude quant t coefs ≤ 2048) :
    |∑ u ∈ range 8, gain r u * scaled quant t coefs u v| ≤ 1971 * 2048 := by
  calc _ ≤ ∑ u ∈ range 8, |gain r u * scaled quant t coefs u v| := abs_sum_le_sum_abs _ _
    _ ≤ ∑ u ∈ range 8,
        ((1971 * ((coefficient coefs u v).natAbs * quantizer quant t u v) : Nat) : Int) := by
      refine sum_le_sum fun u hu => ?_
      rw [Int.abs_eq_natAbs]
      exact Int.ofNat_le.mpr (mul_scaled_le _ _ (scaleAt_bound u v).1
        (gain_scale hr (mem_range.mp hu) hv))
    _ ≤ 1971 * 2048 := by
      rw [← Nat.cast_sum, ← mul_sum]
      exact_mod_cast Nat.mul_le_mul_left 1971 ((column_le_amplitude hv).trans hamp)

/-- So are those of the block. -/
theorem block_bound {r c : Nat} (hr : r < 8) (hc : c < 8) (hamp : amplitude quant t coefs ≤ 2048) :
    |∑ u ∈ range 8, ∑ v ∈ range 8, gain r u * gain c v * scaled quant t coefs u v| ≤
      504476 * 2048 := by
  have hterm : ∀ u < 8, ∀ v < 8, |gain r u * gain c v * scaled quant t coefs u v| ≤
      ((504476 * ((coefficient coefs u v).natAbs * quantizer quant t u v) : Nat) : Int) := by
    intro u hu v hv
    rw [Int.abs_eq_natAbs]
    exact Int.ofNat_le.mpr (mul_scaled_le _ _ (scaleAt_bound u v).1
      (gain_gain_scale r hr u hu c hc v hv).1)
  calc _ ≤ ∑ u ∈ range 8, |∑ v ∈ range 8, gain r u * gain c v * scaled quant t coefs u v| :=
        abs_sum_le_sum_abs _ _
    _ ≤ ∑ u ∈ range 8, ∑ v ∈ range 8, |gain r u * gain c v * scaled quant t coefs u v| :=
        sum_le_sum fun u _ => abs_sum_le_sum_abs _ _
    _ ≤ ∑ u ∈ range 8, ∑ v ∈ range 8,
        ((504476 * ((coefficient coefs u v).natAbs * quantizer quant t u v) : Nat) : Int) :=
      sum_le_sum fun u hu => sum_le_sum fun v hv => hterm u (mem_range.mp hu) v (mem_range.mp hv)
    _ ≤ 504476 * 2048 := by
      simp only [← Nat.cast_sum, ← mul_sum]
      exact_mod_cast Nat.mul_le_mul_left 504476 hamp

/-! ## The passes over a block -/

/-- The quantization table in use is the prescaled one. -/
def Prescaled (sQuantTable quant : Nat → Int16) (t : Nat) : Prop :=
  ∀ u < 8, ∀ v < 8, (sQuantTable (t * 64 + (8 * u + v))).toInt =
    quantizer quant t u v * scaleAt u v / 4096

variable {sMCUs sQuantTable : Nat → Int16} {ucMaxACCol ucMaxACRow : UInt8}

/-- The coefficients of a block are those of its list. -/
theorem getElem?_scanIndex (hlen : coefs.length = 64) {u v : Nat} (hu : u < 8) (hv : v < 8) :
    coefs[Dct.scanIndex u v]? = some (coefficient coefs u v) := by
  have hlt := (scanIndex_place u hu v hv).1
  rw [coefficient, List.getD, List.getElem?_eq_getElem (by omega)]
  rfl

/-- A coefficient is at the place of its frequencies. -/
theorem HoldsBlock.at_place (h : HoldsBlock 0 coefs sMCUs ucMaxACCol ucMaxACRow)
    (hlen : coefs.length = 64) {u v : Nat} (hu : u < 8) (hv : v < 8) :
    sMCUs (8 * u + v) = Int16.ofInt (coefficient coefs u v) := by
  -- `HoldsBlock` numbers the coefficients by their places in the zigzag order
  have hat := h.coef _ _ (getElem?_scanIndex hlen hu hv)
  rwa [(scanIndex_place u hu v hv).2, Nat.zero_add] at hat

/-- A coefficient in a column without a flag is zero, except for the first one. -/
theorem HoldsBlock.col_zero (h : HoldsBlock 0 coefs sMCUs ucMaxACCol ucMaxACRow)
    (hlen : coefs.length = 64) {u v : Nat} (hu : u < 8) (hv : v < 8)
    (hpos : 0 < Dct.scanIndex u v) (hbit : ¬ ucMaxACCol.toNat.testBit v = true) :
    coefficient coefs u v = 0 := by
  have hplace := (scanIndex_place u hu v hv).2
  by_contra hne
  exact hbit ((h.col v).mpr ⟨_, _, hpos, getElem?_scanIndex hlen hu hv, hne, by omega⟩)

/-- The same below the fourth row. -/
theorem HoldsBlock.row_zero (h : HoldsBlock 0 coefs sMCUs ucMaxACCol ucMaxACRow)
    (hlen : coefs.length = 64) {u v : Nat} (hlow : 4 ≤ u) (hu : u < 8) (hv : v < 8)
    (hbit : ¬ ucMaxACRow.toNat.testBit v = true) : coefficient coefs u v = 0 := by
  have hplace := (scanIndex_place u hu v hv).2
  by_contra hne
  -- in these rows no coefficient is the first one
  refine hbit ((h.row v).mpr ⟨_, _, Nat.pos_of_ne_zero fun h0 => ?_, getElem?_scanIndex hlen hu hv,
    hne, by omega, by omega⟩)
  rw [h0, show unzigzag 0 = 0 from rfl] at hplace
  omega

/-- A value of 16 bits. -/
theorem toInt32_ofInt {y : Int} (hlow : -2 ^ 15 ≤ y) (hhigh : y < 2 ^ 15) :
    (Int16.ofInt y).toInt32 = Int32.ofInt y := by
  rw [← Int32.ofInt_int16ToInt, Int16.toInt_ofInt_of_le hlow hhigh]

/-- The products of a column. -/
theorem small_column (h : HoldsBlock 0 coefs sMCUs ucMaxACCol ucMaxACRow)
    (hlen : coefs.length = 64) (hq : Prescaled sQuantTable quant t)
    (hamp : amplitude quant t coefs ≤ 2048) {v : Nat} (hv : v < 8) :
    Small (fun row => (sMCUs (0 + v + 8 * row)).toInt32 *
      (sQuantTable (t * 64 + v + 8 * row)).toInt32) (fun u => scaled quant t coefs u v) := by
  refine ⟨fun u hu => ?_, fun u hu => ?_⟩
  · have hterm := term_le_amplitude quant t coefs hu hv
    rw [show 0 + v + 8 * u = 8 * u + v by omega,
      show t * 64 + v + 8 * u = t * 64 + (8 * u + v) by omega, h.at_place hlen hu hv,
      ← Int32.ofInt_int16ToInt (sQuantTable _), hq u hu v hv, scaled, Int32.ofInt_mul]
    -- a coefficient with the quantization value zero may be cut off
    rcases Nat.eq_zero_or_pos (quantizer quant t u v) with h0 | hpos
    · rw [h0, Int.natCast_zero, Int.zero_mul, Int.zero_ediv,
        show Int32.ofInt 0 = 0 from rfl, Int32.mul_zero, Int32.mul_zero]
    · have hle := Nat.le_mul_of_pos_right (coefficient coefs u v).natAbs hpos
      rw [toInt32_ofInt (by omega) (by omega)]
  · have hle := mul_scaled_le (g := 1) (K := 8) (coefficient coefs u v) (quantizer quant t u v)
      (scaleAt_bound u v).1 (by
        have := scaleAt_bound u v
        rw [Int.natAbs_one, Nat.one_mul]
        omega)
    have hterm := term_le_amplitude quant t coefs hu hv
    rw [Int.one_mul, ← scaled] at hle
    constructor <;> omega

/-- One value behind the column pass. -/
theorem idctColumns_value (h : HoldsBlock 0 coefs sMCUs ucMaxACCol ucMaxACRow)
    (hlen : coefs.length = 64) (hq : Prescaled sQuantTable quant t)
    (hamp : amplitude quant t coefs ≤ 2048) {r v : Nat} (hr : r < 8) (hv : v < 8) :
    ∃ y : Int, idctColumns sQuantTable t 0 ucMaxACRow 8 0 (ucMaxACCol ||| 1) sMCUs (8 * r + v) =
        Int16.ofInt y ∧
      |256 * y - ∑ u ∈ range 8, gain r u * scaled quant t coefs u v| ≤ 768 ∧
      (v ≠ 0 → ¬ ucMaxACCol.toNat.testBit v = true → y = 0) := by
  -- below the fourth row of a half column there is nothing
  have hhalf : decide (ucMaxACRow &&& UInt8.ofNat (1 <<< v) ≠ 0) = false →
      ∀ k, 4 ≤ k → k < 8 → (sMCUs (0 + v + 8 * k)).toInt32 = 0 := by
    intro hfull k hlow hk
    have hbit := mt (and_bit_ne_zero ucMaxACRow hv).mpr (of_decide_eq_false hfull)
    rw [show 0 + v + 8 * k = 8 * k + v by omega, h.at_place hlen hk hv,
      h.row_zero hlen hlow hk hv hbit]
    rfl
  obtain ⟨y, hy, hnear⟩ := idctColumn_near (small_column h hlen hq hamp hv) hhalf hr
  have hat := idctColumns_at sQuantTable t 0 ucMaxACRow (Nat.zero_add 8) (ucMaxACCol ||| 1) sMCUs
    (Nat.zero_le v) hv hy
  rw [show 0 + v + 8 * r = 8 * r + v by omega] at hat
  split at hat
  · rename_i hbit
    rw [Int32.toInt16_ofInt] at hat
    exact ⟨y, hat, hnear, fun hne hclear => absurd
      (((testBit_or_one _ v).mp hbit).resolve_left hne) hclear⟩
  · -- a column without coefficients
    rename_i hbit
    have hbit' := fun h' => hbit ((testBit_or_one _ v).mpr h')
    have hzero : ∀ u < 8, coefficient coefs u v = 0 := fun u hu => by
      refine h.col_zero hlen hu hv (Nat.pos_of_ne_zero fun h0 => ?_) fun h' => hbit' (.inr h')
      have hplace := (scanIndex_place u hu v hv).2
      rw [h0, show unzigzag 0 = 0 from rfl] at hplace
      exact hbit' (.inl (by omega))
    refine ⟨0, ?_, ?_, fun _ _ => rfl⟩
    · rw [hat, h.at_place hlen hr hv, hzero r hr]
    · have hsum : ∑ u ∈ range 8, gain r u * scaled quant t coefs u v = 0 :=
        sum_eq_zero fun u hu => by
          rw [scaled, hzero u (mem_range.mp hu), Int.zero_mul, Int.mul_zero]
      rw [hsum]
      decide

/-- A value of the row pass, from both passes. -/
theorem idctRow_value (h : HoldsBlock 0 coefs sMCUs ucMaxACCol ucMaxACRow)
    (hlen : coefs.length = 64) (hq : Prescaled sQuantTable quant t)
    (hamp : amplitude quant t coefs ≤ 2048) {r c : Nat} (hr : r < 8) (hc : c < 8) :
    ∃ z : Int, (idctRow ucMaxACCol fun col => (idctColumns sQuantTable t 0 ucMaxACRow 8 0
        (ucMaxACCol ||| 1) sMCUs (0 + 8 * r + col)).toInt32)[c]? = some (.ofInt z) ∧
      |256 * 256 * z - ∑ u ∈ range 8, ∑ v ∈ range 8,
        gain r u * gain c v * scaled quant t coefs u v| ≤ 768 * (256 + 2916) := by
  have hvalue := fun v (hv : v < 8) => idctColumns_value h hlen hq hamp hr hv
  choose! y hy hnear hzero using hvalue
  -- the values fit in 16 bits
  have hsmall : ∀ v < 8, -2 ^ 15 ≤ y v ∧ y v < 2 ^ 15 := by
    intro v hv
    have h1 := hnear v hv
    have h2 := column_bound hr hv hamp
    rw [abs_le] at h1 h2
    constructor <;> omega
  have hrow : Small (fun col => (idctColumns sQuantTable t 0 ucMaxACRow 8 0 (ucMaxACCol ||| 1)
      sMCUs (0 + 8 * r + col)).toInt32) y := by
    refine ⟨fun v hv => ?_, fun v hv => by have := hsmall v hv; constructor <;> omega⟩
    rw [Nat.zero_add, hy v hv, toInt32_ofInt (hsmall v hv).1 (hsmall v hv).2]
  -- the row pass may only leave out columns without coefficients
  have hskip : ∀ n v, ucMaxACCol.toNat < 2 ^ n → n ≤ v → 0 < v → v < 8 →
      (idctColumns sQuantTable t 0 ucMaxACRow 8 0 (ucMaxACCol ||| 1) sMCUs
        (0 + 8 * r + v)).toInt32 = 0 := by
    intro n v hlt hn hpos hv
    have hbit := Nat.testBit_lt_two_pow (Nat.lt_of_lt_of_le hlt
      (Nat.pow_le_pow_right (by decide) hn))
    rw [hrow.value v hv, hzero v hv (by omega) (by simp [hbit])]
    rfl
  obtain ⟨z, hz, hnear'⟩ := idctRow_near hrow
    (fun hcol v hlow hv => hskip 4 v (UInt8.lt_iff_toNat_lt.mp hcol) hlow (by omega) hv)
    (fun hcol v hlow hv => hskip 2 v (UInt8.lt_iff_toNat_lt.mp hcol) hlow (by omega) (by omega)) hc
  exact ⟨z, hz, Dct.two_passes hnear hnear' (by decide) (by decide) (gain_row hc)⟩

/-! ## The passes and the exact transform -/

/-- A division rounds down by less than one. -/
theorem ediv_near (a : Int) {n : Int} (hn : 0 < n) : |((a / n : Int) : ℝ) - a / n| ≤ 1 := by
  -- both bounds of the integer division, over the reals
  have hlow := (Int.cast_le (R := ℝ)).mpr (Int.mul_ediv_self_le (x := a) hn.ne')
  have hhigh := (Int.cast_lt (R := ℝ)).mpr (Int.lt_mul_ediv_self_add (x := a) hn)
  have hpos : (0 : ℝ) < n := by exact_mod_cast hn
  push_cast at hlow hhigh
  have hdiv : (n : ℝ) * (a / n) = a := mul_div_cancel₀ _ hpos.ne'
  rw [abs_le]
  constructor <;> nlinarith

/-- The matrices of both passes and the scale factor make up the basis of the transform. -/
theorem gain_basis {r u c v : Nat} (hr : r < 8) (hu : u < 8) (hc : c < 8) (hv : v < 8) :
    |(gain r u * gain c v * scaleAt u v / 4096 - 2 ^ 18 * (Dct.basis r u * Dct.basis c v) : ℝ)| ≤
      2 ^ 18 / 1000 := by
  -- the decided table is compared with the cosines in millionths, and these are as near to the
  -- real ones
  have htable := (gain_gain_scale r hr u hu c hc v hv).2
  have hbasis := Dct.basis_mul_near r u c v
  have htable' : |(gain r u * gain c v * scaleAt u v * 10 ^ 12 -
      Dct.basisTable r u * Dct.basisTable c v * 2 ^ 30 : ℝ)| ≤ (10 ^ 9 - 3 * 10 ^ 6) * 2 ^ 30 := by
    exact_mod_cast htable
  rw [abs_le] at htable' hbasis ⊢
  constructor <;> linarith

/-- One coefficient: its quantization value was rounded down, and the matrices are not exact. -/
theorem scaled_near {r u c v : Nat} (hr : r < 8) (hu : u < 8) (hc : c < 8) (hv : v < 8) :
    |(gain r u * gain c v * scaled quant t coefs u v - 2 ^ 18 * (Dct.basis r u * Dct.basis c v *
        (coefficient coefs u v * quantizer quant t u v)) : ℝ)| ≤
      (coefficient coefs u v).natAbs * (peak u * peak v) +
        2 ^ 18 / 1000 * ((coefficient coefs u v).natAbs * quantizer quant t u v) := by
  have hbasis := gain_basis hr hu hc hv
  have hpeak : |(gain r u * gain c v : ℝ)| ≤ peak u * peak v := by
    rw [abs_mul]
    have h1 : |(gain r u : ℝ)| ≤ peak u := by exact_mod_cast gain_le_peak r hr u hu
    have h2 : |(gain c v : ℝ)| ≤ peak v := by exact_mod_cast gain_le_peak c hc v hv
    exact mul_le_mul h1 h2 (abs_nonneg _) (Nat.cast_nonneg _)
  have hround := ediv_near (quantizer quant t u v * scaleAt u v) (n := 4096) (by decide)
  push_cast at hround
  have habs : ((coefficient coefs u v).natAbs : ℝ) = |(coefficient coefs u v : ℝ)| := by
    rw [Nat.cast_natAbs, Int.cast_abs]
  rw [habs, scaled, Int.cast_mul]
  generalize ((quantizer quant t u v * scaleAt u v / 4096 : Int) : ℝ) = w at hround
  generalize (coefficient coefs u v : ℝ) = d
  -- the first part is due to the rounding of the quantization value, the second to the constants
  have hsplit : (gain r u * gain c v * (d * w) - 2 ^ 18 * (Dct.basis r u * Dct.basis c v *
      (d * quantizer quant t u v)) : ℝ) =
      d * (gain r u * gain c v * (w - quantizer quant t u v * scaleAt u v / 4096)) +
      d * quantizer quant t u v * (gain r u * gain c v * scaleAt u v / 4096 -
        2 ^ 18 * (Dct.basis r u * Dct.basis c v)) := by ring
  rw [hsplit]
  refine (abs_add_le _ _).trans (add_le_add ?_ ?_)
  · rw [abs_mul]
    refine mul_le_mul_of_nonneg_left ?_ (abs_nonneg _)
    rw [abs_mul]
    exact (mul_le_of_le_one_right (abs_nonneg _) hround).trans hpeak
  · rw [abs_mul, abs_mul, Nat.abs_cast, mul_comm (2 ^ 18 / 1000)]
    exact mul_le_mul_of_nonneg_left hbasis (by positivity)

/-- The value of the row pass is 32 times the exact one, up to rounding. -/
theorem value_near (hamp : amplitude quant t coefs ≤ 2048) {r c : Nat} (hr : r < 8) (hc : c < 8)
    {z : Int} (hz : |256 * 256 * z - ∑ u ∈ range 8, ∑ v ∈ range 8,
      gain r u * gain c v * scaled quant t coefs u v| ≤ 768 * (256 + 2916)) :
    |(z - 32 * Dct.inverse (fun u v => coefficient coefs u v * quantizer quant t u v) r c : ℝ)| ≤
      48 + loss coefs / 2 ^ 16 := by
  have hz' : |(256 * 256 * z - ∑ u ∈ range 8, ∑ v ∈ range 8,
      gain r u * gain c v * scaled quant t coefs u v : ℝ)| ≤ 768 * (256 + 2916) := by
    exact_mod_cast hz
  -- all coefficients together
  have hsum : |(∑ u ∈ range 8, ∑ v ∈ range 8, gain r u * gain c v * scaled quant t coefs u v -
      2 ^ 18 * ∑ u ∈ range 8, ∑ v ∈ range 8, Dct.basis r u * Dct.basis c v *
        (coefficient coefs u v * quantizer quant t u v) : ℝ)| ≤
      loss coefs + 2 ^ 18 / 1000 * amplitude quant t coefs := by
    rw [loss, amplitude]
    push_cast
    rw [mul_sum, mul_sum, ← sum_sub_distrib, ← sum_add_distrib]
    refine (abs_sum_le_sum_abs _ _).trans (sum_le_sum fun u hu => ?_)
    rw [mul_sum, mul_sum, ← sum_sub_distrib, ← sum_add_distrib]
    refine (abs_sum_le_sum_abs _ _).trans (sum_le_sum fun v hv => ?_)
    exact scaled_near hr (mem_range.mp hu) hc (mem_range.mp hv)
  have hamp' : (amplitude quant t coefs : ℝ) ≤ 2048 := by exact_mod_cast hamp
  rw [Dct.inverse_eq]
  rw [abs_le] at hz' hsum ⊢
  -- rounding: 768 * 3172 / 2 ^ 16 = 37.2, constants: 2048 * 4 / 1000 = 8.2
  constructor <;> linarith

end

/-! ## From the rows to the samples -/

/-- The range table, entry by entry: the upper half is for the negative values. -/
theorem ucRangeTable_eq : ucRangeTable = (List.range 1024).map fun i : Nat =>
    UInt8.ofNat (clamp8 ((if i < 512 then (i : Int) else i - 1024) + 128)) := by
  decide +kernel

/-- It limits a value to eight bits, with 128 for zero. -/
theorem rangeLimit_ofInt {z : Int} (hlow : -2 ^ 14 ≤ z) (hhigh : z < 2 ^ 14) :
    (rangeLimit (.ofInt z)).toNat = clamp8 (z / 32 + 128) := by
  -- the table is indexed by ten bits, in which a negative value has the upper half
  have hnat : (Int32.ofInt z).toBitVec.toNat = (z % 2 ^ 32).toNat := by
    rw [Int32.toBitVec_ofInt, BitVec.toNat_ofInt]
    rfl
  rw [rangeLimit, tableIndex (k := 5) _ (by decide) rfl, hnat, ucRangeTable_eq, List.getElem?_map,
    List.getElem?_range (by omega), Option.map_some, Option.getD_some, UInt8.toNat_ofNat',
    Nat.mod_eq_of_lt (clamp8_lt _)]
  congr 2
  split <;> omega

/-- The bytes of a word. -/
theorem word_bytes (lo hi : UInt8) :
    (lo.toUInt16 ||| (hi.toUInt16 <<< 8)).toUInt8 = lo ∧
      ((lo.toUInt16 ||| (hi.toUInt16 <<< 8)) >>> 8).toUInt8 = hi := by
  have hlo := lo.toNat_lt
  have hhi := hi.toNat_lt
  -- the bytes do not overlap
  have hword : (lo.toUInt16 ||| (hi.toUInt16 <<< 8)).toNat = hi.toNat * 2 ^ 8 + lo.toNat := by
    rw [UInt16.toNat_or, UInt16.toNat_shiftLeft, UInt8.toNat_toUInt16, UInt8.toNat_toUInt16,
      Nat.or_comm]
    simp only [UInt16.reduceToNat, Nat.reduceMod, Nat.shiftLeft_eq]
    rw [Nat.mod_eq_of_lt (by omega), ← Nat.shiftLeft_eq, ← Nat.shiftLeft_add_eq_or_of_lt hlo]
  constructor
  · apply UInt8.toNat_inj.mp
    rw [UInt16.toNat_toUInt8, hword]
    omega
  · apply UInt8.toNat_inj.mp
    rw [UInt16.toNat_toUInt8, UInt16.toNat_shiftRight, hword, Nat.shiftRight_eq_div_pow]
    simp only [UInt16.reduceToNat, Nat.reduceMod]
    omega

/-- A byte is found again in its word. -/
theorem byte_packBytes {l : List UInt8} {i : Nat} {b : UInt8} (heven : l.length % 2 = 0)
    (hb : l[i]? = some b) :
    ∃ w, (packBytes l)[i / 2]? = some w ∧
      (if i % 2 = 0 then w.toUInt16.toUInt8 else (w.toUInt16 >>> 8).toUInt8) = b := by
  induction l using packBytes.induct generalizing i with
  | case1 lo hi rest ih =>
    obtain ⟨hlo, hhi⟩ := word_bytes lo hi
    rcases i with _ | _ | i
    · simp only [List.getElem?_cons_zero, Option.some.injEq] at hb
      exact ⟨_, rfl, hb ▸ hlo⟩
    · simp only [List.getElem?_cons_succ, List.getElem?_cons_zero, Option.some.injEq] at hb
      exact ⟨_, rfl, hb ▸ hhi⟩
    · simp only [List.getElem?_cons_succ] at hb
      obtain ⟨w, hw, hbyte⟩ := ih (by simp only [List.length_cons] at heven; omega) hb
      refine ⟨w, ?_, ?_⟩
      · -- the first two bytes make up the first word
        rw [packBytes, show (i + 1 + 1) / 2 = i / 2 + 1 by omega, List.getElem?_cons_succ, hw]
      · rwa [show (i + 1 + 1) % 2 = i % 2 by omega]
  | case2 l hl =>
    rcases l with _ | ⟨lo, _ | ⟨hi, rest⟩⟩
    · simp at hb
    · simp at heven
    · exact absurd rfl (hl lo hi rest)

section

variable {q : ScanInfo} {comp : Nat} {coefs : List Int}

/-- Sample `i` of a block with the given coefficients. -/
def sample (q : ScanInfo) (comp : Nat) (coefs : List Int) (i : Nat) : UInt8 :=
  mcuByte (fun a => (blockPixels q comp coefs).getD a 0) 0 i

/-- A sample is the limited value of the row pass. -/
theorem sample_eq_rangeLimit (hscale : q.scale = .full) (hlen : coefs.length = 64) {r c : Nat}
    (hr : r < 8) (hc : c < 8) {x : Int32}
    (hx : (idctRow (blockOf coefs).ucMaxACCol fun col =>
      (idctColumns q.sQuantTable (q.jpci comp).quantTblNo.toNat 0 (blockOf coefs).ucMaxACRow 8 0
        ((blockOf coefs).ucMaxACCol ||| 1) (blockOf coefs).sMCUs (0 + 8 * r + col)).toInt32)[c]? =
      some x) : sample q comp coefs (8 * r + c) = rangeLimit x := by
  have hpixels := (holdsBlock_blockOf hlen).load_reconstruct q comp hscale hlen
  rw [jpegIDCT, if_neg (by decide), (word_bytes _ _).1, (word_bytes _ _).2] at hpixels
  -- the row's four words, and the one with the sample
  have hrow := (idctRows_row (blockOf coefs).ucMaxACCol 0 8 0
    (idctColumns q.sQuantTable (q.jpci comp).quantTblNo.toNat 0 (blockOf coefs).ucMaxACRow 8 0
      ((blockOf coefs).ucMaxACCol ||| 1) (blockOf coefs).sMCUs)).2 r (Nat.zero_le r) (by omega)
  obtain ⟨w, hw, hbyte⟩ := byte_packBytes (i := c) (b := rangeLimit x)
    (l := (idctRow (blockOf coefs).ucMaxACCol fun col =>
      (idctColumns q.sQuantTable (q.jpci comp).quantTblNo.toNat 0 (blockOf coefs).ucMaxACRow 8 0
        ((blockOf coefs).ucMaxACCol ||| 1) (blockOf coefs).sMCUs (0 + 8 * r + col)).toInt32).map
          rangeLimit) (by rw [List.length_map, length_idctRow]) (by rw [List.getElem?_map, hx]; rfl)
  rw [← rowPixels, ← hrow, Mem.getElem?_load _ (by omega)] at hw
  have hword : (blockPixels q comp coefs).getD ((8 * r + c) / 2) 0 = w := by
    rw [blockPixels, hpixels, List.getD, Mem.getElem?_load _ (by omega), Option.getD_some,
      ← Option.some.inj hw]
    congr 1
    omega
  rw [sample, mcuByte, Nat.zero_add, hword, ← hbyte, show (8 * r + c) % 2 = c % 2 by omega]

/-- The quantization table of a component is one of those that `JPEGFixQuantD` has fixed, and has
    values of up to 12 bits. -/
structure Quantized (q : ScanInfo) (quant : Nat → Int16) (comp : Nat) : Prop where
  fixed : q.sQuantTable = jpegFixQuantD q.ucNumComponents quant
  number : (q.jpci comp).quantTblNo.toNat < q.ucNumComponents.toNat
  value : ∀ k < 64, (quant ((q.jpci comp).quantTblNo.toNat * 64 + k)).toUInt16.toNat < 2 ^ 12

variable {quant : Nat → Int16}

/-- It is the prescaled table. -/
theorem Quantized.prescaled (h : Quantized q quant comp) :
    Prescaled q.sQuantTable quant (q.jpci comp).quantTblNo.toNat := by
  intro u hu v hv
  obtain ⟨hlt, hplace⟩ := scanIndex_place u hu v hv
  have hat := fixQuantTables_at q.ucNumComponents.toNat 0 quant
    (t := (q.jpci comp).quantTblNo.toNat) hlt
  have hnumber := h.number
  rw [if_pos (by omega), hplace] at hat
  rw [h.fixed, jpegFixQuantD, hat, prescale_toInt (h.value _ hlt)]
  rfl

/-- Limiting does not take two values apart. -/
theorem limit_sub_le (a b : ℝ) : |max 0 (min 255 a) - max 0 (min 255 b)| ≤ |a - b| := by
  have hmax := abs_max_sub_max_le_abs (min 255 a) (min 255 b) 0
  have hmin := abs_min_sub_min_le_max 255 a 255 b
  rw [sub_self, abs_zero, max_eq_right (abs_nonneg _)] at hmin
  rw [max_comm, max_comm 0]
  exact hmax.trans hmin

/-- The limited value as a real number. -/
theorem clamp8_cast (v : Int) : (clamp8 v : ℝ) = max 0 (min 255 (v : ℝ)) := by
  have h : (clamp8 v : Int) = max 0 (min 255 v) := by
    rw [clamp8]
    omega
  exact_mod_cast congrArg (Int.cast (R := ℝ)) h

/-- A sample is as near to the exact one as the arithmetic of the decoder can be. Beyond the given
    amplitude a value may overflow. -/
def Accurate (quant : Nat → Int16) (t : Nat) (coefs : List Int) (r c : Nat) (b : UInt8) : Prop :=
  amplitude quant t coefs ≤ 2048 →
    |(b.toNat : ℝ) - exactSample quant t coefs r c| ≤ 2.5 + loss coefs / 2097152

/-- The samples of every block are accurate. -/
theorem sample_accurate (hscale : q.scale = .full) (hlen : coefs.length = 64)
    (hq : Quantized q quant comp) {r c : Nat} (hr : r < 8) (hc : c < 8) :
    Accurate quant (q.jpci comp).quantTblNo.toNat coefs r c (sample q comp coefs (8 * r + c)) := by
  intro hamp
  obtain ⟨z, hz, hnear⟩ := idctRow_value (holdsBlock_blockOf hlen) hlen hq.prescaled hamp hr hc
  have hvalue := value_near hamp hr hc hnear
  -- the value is in the range of the table
  have hbound := block_bound hr hc hamp
  rw [abs_le] at hnear hbound
  rw [sample_eq_rangeLimit hscale hlen hr hc hz, rangeLimit_ofInt (by omega) (by omega),
    clamp8_cast, exactSample]
  refine (limit_sub_le _ _).trans ?_
  -- the last division rounds down
  have hround := ediv_near z (n := 32) (by decide)
  push_cast at hround ⊢
  rw [abs_le] at hvalue hround ⊢
  constructor <;> linarith

end

end Ivy.Spec
