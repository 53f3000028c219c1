import Ivy.Spec.JpegPixels
import Mathlib.Algebra.BigOperators.Group.Finset.Basic
import Mathlib.Tactic.IntervalCases

/-!
# The passes of the inverse DCT

`JPEGIDCT` calculates columns and rows with constants of eight fraction bits, and takes short cuts
where only some values are not zero. All variants come to the same: up to rounding, a pass is the
multiplication by one matrix. The products are rounded down, which makes an error of three at most.
-/

namespace Ivy.Spec

open Ivy.Native Finset

/-! ## Machine arithmetic -/

/-- A shift to the right is a division that rounds down. -/
theorem shiftRight_ofInt {v : Int} {n : Int32} {k : Nat}
    (hn : BitVec.smod n.toBitVec 32 = BitVec.ofNat 32 k) (hk : k < 32) (hlow : -2 ^ 31 ≤ v)
    (hhigh : v < 2 ^ 31) : Int32.ofInt v >>> n = Int32.ofInt (v / 2 ^ k) := by
  have hv : (Int32.ofInt v).toInt = v := by
    rw [Int32.toInt_ofInt, Int.bmod_eq_of_le] <;> simp only [Int32.size] <;> omega
  apply Int32.toBitVec_inj.mp
  -- the machine takes the distance modulo 32
  rw [Int32.toBitVec_shiftRight, hn, BitVec.sshiftRight_eq', BitVec.toNat_ofNat,
    Nat.mod_eq_of_lt (by omega), BitVec.sshiftRight, Int32.toInt_toBitVec, hv,
    Int.shiftRight_eq_div_pow, Int32.toBitVec_ofInt]
  rfl

/-- A product with a constant of eight fraction bits. -/
theorem scaled_ofInt {a : Int} (c : Int) (hlow : -2 ^ 31 ≤ a * c) (hhigh : a * c < 2 ^ 31) :
    (Int32.ofInt a * Int32.ofInt c) >>> 8 = Int32.ofInt (a * c / 256) := by
  rw [← Int32.ofInt_mul]
  exact shiftRight_ofInt (k := 8) rfl (by decide) hlow hhigh

/-! ## One pass -/

/-- The matrix of a pass, with eight fraction bits. -/
def gain (n k : Nat) : Int :=
  ([[256, 256, 256, 256, 256, 256, 256, 256],
    [256, 217, 106, -60, -256, -452, -618, -729],
    [256, 145, -106, -302, -256, 90, 618, 1091],
    [256, 51, -256, -171, 256, 383, -256, -1287],
    [256, -51, -256, 171, 256, -383, -256, 1287],
    [256, -145, -106, 302, -256, -90, 618, -1091],
    [256, -217, 106, 60, -256, 452, -618, 729],
    [256, -256, 256, -256, 256, -256, 256, -256]].getD n []).getD k 0

/-- The machine's values are small integers, with which no product overflows. -/
structure Small (X : Nat → Int32) (x : Nat → Int) : Prop where
  value : ∀ k < 8, X k = Int32.ofInt (x k)
  bound : ∀ k < 8, -2 ^ 17 ≤ x k ∧ x k ≤ 2 ^ 17

section

variable {X : Nat → Int32} {x : Nat → Int}

/-- The even part of a pass over the values `x`: one product has been rounded down. -/
def EvenNear (x : Nat → Int) (e : EvenPart) : Prop :=
  ∃ t : Int, e = ⟨.ofInt (x 0 + x 4 + (x 2 + x 6)), .ofInt (x 0 - x 4 + t), .ofInt (x 0 - x 4 - t),
    .ofInt (x 0 + x 4 - (x 2 + x 6))⟩ ∧
    256 * t ≤ 106 * x 2 - 618 * x 6 ∧ 106 * x 2 - 618 * x 6 ≤ 256 * t + 256

/-- The odd part: up to four products have been rounded down, of which one counts twice. -/
def OddNear (x : Nat → Int) (o : OddPart) : Prop :=
  ∃ t₄ t₅ t₆ : Int, o = ⟨.ofInt t₄, .ofInt t₅, .ofInt t₆, .ofInt (x 1 + x 7 + (x 5 + x 3))⟩ ∧
    (256 * t₆ ≤ 217 * x 1 - 60 * x 3 - 452 * x 5 - 729 * x 7 ∧
      217 * x 1 - 60 * x 3 - 452 * x 5 - 729 * x 7 ≤ 256 * t₆ + 512) ∧
    (256 * t₅ - 512 ≤ 145 * x 1 - 302 * x 3 + 90 * x 5 + 1091 * x 7 ∧
      145 * x 1 - 302 * x 3 + 90 * x 5 + 1091 * x 7 ≤ 256 * t₅ + 256) ∧
    256 * t₄ - 768 ≤ -51 * x 1 + 171 * x 3 - 383 * x 5 + 1287 * x 7 ∧
      -51 * x 1 + 171 * x 3 - 383 * x 5 + 1287 * x 7 ≤ 256 * t₄ + 512

/-- All four values. -/
theorem evenNear_full (h : Small X x) :
    EvenNear x ⟨X 0 + X 4 + (X 2 + X 6),
      X 0 - X 4 + ((((X 2 - X 6) * 362) >>> 8) - (X 2 + X 6)),
      X 0 - X 4 - ((((X 2 - X 6) * 362) >>> 8) - (X 2 + X 6)), X 0 + X 4 - (X 2 + X 6)⟩ := by
  have h2 := h.bound 2 (by decide)
  have h6 := h.bound 6 (by decide)
  rw [h.value 0 (by decide), h.value 2 (by decide), h.value 4 (by decide), h.value 6 (by decide),
    show (362 : Int32) = .ofInt 362 from rfl, ← Int32.ofInt_sub (x 2),
    scaled_ofInt 362 (by omega) (by omega)]
  simp only [← Int32.ofInt_add, ← Int32.ofInt_sub]
  -- the sum takes 256 of the 362 off again: 106 are left for value 2, and -618 for value 6
  exact ⟨(x 2 - x 6) * 362 / 256 - (x 2 + x 6), rfl, by omega, by omega⟩

/-- The values 4 and 6 are zero. -/
theorem evenNear_half (h : Small X x) (h4 : x 4 = 0) (h6 : x 6 = 0) :
    EvenNear x ⟨X 0 + X 2, X 0 + ((X 2 * 106) >>> 8), X 0 - ((X 2 * 106) >>> 8), X 0 - X 2⟩ := by
  have h2 := h.bound 2 (by decide)
  rw [h.value 0 (by decide), h.value 2 (by decide), show (106 : Int32) = .ofInt 106 from rfl,
    scaled_ofInt 106 (by omega) (by omega)]
  simp only [← Int32.ofInt_add, ← Int32.ofInt_sub]
  refine ⟨x 2 * 106 / 256, ?_, by omega, by omega⟩
  rw [h4, h6, Int.add_zero, Int.add_zero, Int.sub_zero]

/-- All four values. -/
theorem oddNear_full (h : Small X x) :
    OddNear x (oddPart (X 5 - X 3) (X 1 + X 7) (X 1 - X 7) (X 5 + X 3)) := by
  have h1 := h.bound 1 (by decide)
  have h3 := h.bound 3 (by decide)
  have h5 := h.bound 5 (by decide)
  have h7 := h.bound 7 (by decide)
  rw [h.value 1 (by decide), h.value 3 (by decide), h.value 5 (by decide), h.value 7 (by decide)]
  simp only [oddPart, ← Int32.ofInt_add, ← Int32.ofInt_sub]
  rw [show (362 : Int32) = .ofInt 362 from rfl, show (473 : Int32) = .ofInt 473 from rfl,
    show (-669 : Int32) = .ofInt (-669) from rfl, show (277 : Int32) = .ofInt 277 from rfl,
    scaled_ofInt 362 (by omega) (by omega), scaled_ofInt 473 (by omega) (by omega),
    scaled_ofInt (-669) (by omega) (by omega), scaled_ofInt 277 (by omega) (by omega)]
  simp only [← Int32.ofInt_add, ← Int32.ofInt_sub]
  -- each of `tmp6`, `tmp5` and `tmp4` is calculated from the one before, whose rounding it
  -- takes over
  refine ⟨_, _, _, rfl, ⟨?_, ?_⟩, ⟨?_, ?_⟩, ?_, ?_⟩ <;> omega

/-- Only value 1 is left. Columns and rows round the first of the products in different
    directions. -/
theorem oddNear_single {tmp4 : Int32} {t₄ : Int} (h : Small X x) (h3 : x 3 = 0) (h5 : x 5 = 0)
    (h7 : x 7 = 0) (ht₄ : tmp4 = .ofInt t₄) (hlow : -256 ≤ 256 * t₄ + 51 * x 1)
    (hhigh : 256 * t₄ + 51 * x 1 ≤ 256) :
    OddNear x ⟨tmp4, (X 1 * 145) >>> 8, (X 1 * 217) >>> 8, X 1⟩ := by
  have h1 := h.bound 1 (by decide)
  rw [h.value 1 (by decide), show (145 : Int32) = .ofInt 145 from rfl,
    show (217 : Int32) = .ofInt 217 from rfl, scaled_ofInt 145 (by omega) (by omega),
    scaled_ofInt 217 (by omega) (by omega), ht₄]
  refine ⟨t₄, x 1 * 145 / 256, x 1 * 217 / 256, ?_, ⟨?_, ?_⟩, ⟨?_, ?_⟩, ?_, ?_⟩
  · rw [h3, h5, h7, Int.add_zero, Int.add_zero, Int.add_zero]
  all_goals omega

/-- The eight values of a pass. Up to four products have been rounded down for each of them. -/
theorem output_near {e : EvenPart} {o : OddPart} (he : EvenNear x e) (ho : OddNear x o) {n : Nat}
    (hn : n < 8) :
    ∃ y : Int, (idctOutput e o)[n]? = some (.ofInt y) ∧
      |256 * y - ∑ k ∈ range 8, gain n k * x k| ≤ 768 := by
  obtain ⟨t, rfl, ht⟩ := he
  obtain ⟨t₄, t₅, t₆, rfl, h₆, h₅, h₄⟩ := ho
  simp only [idctOutput, ← Int32.ofInt_add, ← Int32.ofInt_sub, sum_range_succ, sum_range_zero]
  -- one row of the matrix after the other
  interval_cases n
  all_goals
    refine ⟨_, rfl, ?_⟩
    simp only [gain, List.getD_cons_zero, List.getD_cons_succ]
    rw [abs_le]
    constructor <;> omega

/-! ## Columns and rows -/

/-- A zero of the machine. -/
theorem Small.eq_zero (h : Small X x) {k : Nat} (hk : k < 8) (hX : X k = 0) : x k = 0 := by
  have hb := h.bound k hk
  have hv := congrArg Int32.toInt ((h.value k hk).symm.trans hX)
  rw [Int32.toInt_ofInt, Int.bmod_eq_of_le (by simp only [Int32.size]; omega)
    (by simp only [Int32.size]; omega)] at hv
  exact hv

/-- The odd part with the values 5 and 7 zero. -/
theorem oddPart_half {X1 X3 X5 X7 : Int32} (h5 : X5 = 0) (h7 : X7 = 0) :
    oddPart (X5 - X3) (X1 + X7) (X1 - X7) (X5 + X3) = oddPart (-X3) X1 X1 X3 := by
  rw [h5, h7, Int32.zero_sub, Int32.add_zero, Int32.sub_zero, Int32.zero_add]

section

variable {src quant : Nat → Int32}

/-- In a full column, the values that are zero make no difference. -/
theorem columnEven_eq : columnEven src quant =
    ⟨src 0 * quant 0 + src 4 * quant 4 + (src 2 * quant 2 + src 6 * quant 6),
      src 0 * quant 0 - src 4 * quant 4 + ((((src 2 * quant 2 - src 6 * quant 6) * 362) >>> 8) -
        (src 2 * quant 2 + src 6 * quant 6)),
      src 0 * quant 0 - src 4 * quant 4 - ((((src 2 * quant 2 - src 6 * quant 6) * 362) >>> 8) -
        (src 2 * quant 2 + src 6 * quant 6)),
      src 0 * quant 0 + src 4 * quant 4 - (src 2 * quant 2 + src 6 * quant 6)⟩ := by
  rw [columnEven]
  by_cases h4 : src 4 = 0 <;> by_cases h6 : src 6 = 0 <;> simp [h4, h6]

/-- The same for the odd part. -/
theorem columnOdd_eq : columnOdd src quant =
    oddPart (src 5 * quant 5 - src 3 * quant 3) (src 1 * quant 1 + src 7 * quant 7)
      (src 1 * quant 1 - src 7 * quant 7) (src 5 * quant 5 + src 3 * quant 3) := by
  rw [columnOdd]
  by_cases h5 : src 5 = 0 <;> by_cases h7 : src 7 = 0 <;> simp [h5, h7]

/-- In a half column, the odd part is the same unless the third value is zero. -/
theorem columnOddHalf_eq (h3 : src 3 ≠ 0) : columnOddHalf src quant =
    oddPart (-(src 3 * quant 3)) (src 1 * quant 1) (src 1 * quant 1) (src 3 * quant 3) := by
  rw [columnOddHalf, if_pos h3, oddPart, Int32.add_comm (-_), ← Int32.sub_eq_add_neg]

/-- The odd part of a half column: with the third value the calculation is the full one. -/
theorem columnOddHalf_near (h : Small (fun k => src k * quant k) x)
    (h5 : src 5 = 0) (h7 : src 7 = 0) : OddNear x (columnOddHalf src quant) := by
  have h5' : src 5 * quant 5 = 0 := by rw [h5, Int32.zero_mul]
  have h7' : src 7 * quant 7 = 0 := by rw [h7, Int32.zero_mul]
  -- without value 3 the source multiplies value 1 by three constants of its own
  by_cases h3 : src 3 = 0
  · have h3' : src 3 * quant 3 = 0 := by rw [h3, Int32.zero_mul]
    have h1 := h.bound 1 (by decide)
    have ht₄ : (-51 * (src 1 * quant 1)) >>> 8 = Int32.ofInt (x 1 * -51 / 256) := by
      rw [Int32.mul_comm (-51), show src 1 * quant 1 = _ from h.value 1 (by decide),
        show (-51 : Int32) = .ofInt (-51) from rfl, scaled_ofInt (-51) (by omega) (by omega)]
    have hsingle := oddNear_single h (h.eq_zero (by decide) h3') (h.eq_zero (by decide) h5')
      (h.eq_zero (by decide) h7') ht₄ (by omega) (by omega)
    rw [columnOddHalf, if_neg (not_not.mpr h3), Int32.mul_comm 145, Int32.mul_comm 217]
    exact hsingle
  · have hfull := oddNear_full h
    rw [oddPart_half h5' h7'] at hfull
    rwa [columnOddHalf_eq h3]

/-- A column. -/
theorem idctColumn_near (h : Small (fun k => src k * quant k) x) {full : Bool}
    (hhalf : full = false → ∀ k, 4 ≤ k → k < 8 → src k = 0) {n : Nat} (hn : n < 8) :
    ∃ y : Int, (idctColumn src quant full)[n]? = some (.ofInt y) ∧
      |256 * y - ∑ k ∈ range 8, gain n k * x k| ≤ 768 := by
  rw [idctColumn]
  split
  · rw [columnEven_eq, columnOdd_eq]
    exact output_near (evenNear_full h) (oddNear_full h) hn
  · rename_i hfull
    have hzero := hhalf (by simpa using hfull)
    have h4 : src 4 * quant 4 = 0 := by rw [hzero 4 (by decide) (by decide), Int32.zero_mul]
    have h6 : src 6 * quant 6 = 0 := by rw [hzero 6 (by decide) (by decide), Int32.zero_mul]
    exact output_near
      (evenNear_half h (h.eq_zero (by decide) h4) (h.eq_zero (by decide) h6))
      (columnOddHalf_near h (hzero 5 (by decide) (by decide)) (hzero 7 (by decide) (by decide))) hn

end

/-- A row. -/
theorem idctRow_near (h : Small X x) {ucMaxACCol : UInt8}
    (hhalf : ucMaxACCol < 0x10 → ∀ k, 4 ≤ k → k < 8 → X k = 0)
    (hquarter : ucMaxACCol < 0x04 → ∀ k, 2 ≤ k → k < 4 → X k = 0) {n : Nat} (hn : n < 8) :
    ∃ y : Int, (idctRow ucMaxACCol X)[n]? = some (.ofInt y) ∧
      |256 * y - ∑ k ∈ range 8, gain n k * x k| ≤ 768 := by
  rw [idctRow]
  split
  · rename_i h10
    -- the values 4 to 7 are zero
    have hzero := hhalf h10
    have h4 := h.eq_zero (k := 4) (by decide) (hzero 4 (by decide) (by decide))
    have h5 := hzero 5 (by decide) (by decide)
    have h6 := h.eq_zero (k := 6) (by decide) (hzero 6 (by decide) (by decide))
    have h7 := hzero 7 (by decide) (by decide)
    split
    · rename_i h04
      -- values 2 and 3 as well
      have h1 := h.bound 1 (by decide)
      have h2 := hquarter h04 2 (by decide) (by decide)
      have h3 := h.eq_zero (k := 3) (by decide) (hquarter h04 3 (by decide) (by decide))
      have heven := evenNear_half h h4 h6
      rw [h2, Int32.zero_mul, Int32.zero_shiftRight, Int32.add_zero, Int32.sub_zero] at heven
      have ht₄ : -((X 1 * 51) >>> 8) = Int32.ofInt (-(x 1 * 51 / 256)) := by
        rw [h.value 1 (by decide), show (51 : Int32) = .ofInt 51 from rfl,
          scaled_ofInt 51 (by omega) (by omega), Int32.ofInt_neg]
      exact output_near heven (oddNear_single h h3 (h.eq_zero (by decide) h5)
        (h.eq_zero (by decide) h7) ht₄ (by omega) (by omega)) hn
    · have hfull := oddNear_full h
      -- the source has worked the two signs into the constant
      rw [oddPart_half h5 h7, oddPart, Int32.add_comm (-_), ← Int32.sub_eq_add_neg,
        show (-669 : Int32) = -(669) from rfl, Int32.neg_mul_neg] at hfull
      exact output_near (evenNear_half h h4 h6) hfull hn
  · exact output_near (evenNear_full h) (oddNear_full h) hn

end

/-! ## The columns of a block -/

/-- The flag of column `c`. -/
theorem toNat_bit {c : Nat} (hc : c < 8) : (UInt8.ofNat (1 <<< c)).toNat = 2 ^ c := by
  rw [UInt8.toNat_ofNat', Nat.one_shiftLeft, Nat.mod_eq_of_lt (Nat.pow_lt_pow_right (by decide) hc)]

/-- Whether it is set. -/
theorem and_bit_ne_zero (f : UInt8) {c : Nat} (hc : c < 8) :
    f &&& UInt8.ofNat (1 <<< c) ≠ 0 ↔ f.toNat.testBit c = true := by
  rw [ne_eq, ← UInt8.toNat_inj, UInt8.toNat_and, toNat_bit hc, Nat.and_two_pow, UInt8.toNat_zero]
  cases f.toNat.testBit c <;> simp

/-- The flags of the other columns stay. -/
theorem testBit_clear (f : UInt8) {b c : Nat} (hb : b < 8) (hc : c < 8) (hne : c ≠ b) :
    (f &&& ~~~ UInt8.ofNat (1 <<< b)).toNat.testBit c = f.toNat.testBit c := by
  have hbit : (UInt8.ofNat (1 <<< b)).toNat.testBit c = false := by
    rw [toNat_bit hb, Nat.testBit_two_pow_of_ne (Ne.symm hne)]
  have hnot : (~~~ UInt8.ofNat (1 <<< b)).toNat.testBit c = true := by
    rw [← UInt8.toNat_toBitVec, ← BitVec.getLsbD, UInt8.toBitVec_not, BitVec.getLsbD_not,
      BitVec.getLsbD, UInt8.toNat_toBitVec, hbit]
    simpa using hc
  rw [UInt8.toNat_and, Nat.testBit_and, hnot, Bool.and_true]

/-- The flags of the columns that are calculated: column 0 always is. -/
theorem testBit_or_one (f : UInt8) (c : Nat) :
    (f ||| 1).toNat.testBit c = true ↔ c = 0 ∨ f.toNat.testBit c = true := by
  rw [UInt8.toNat_or, Nat.testBit_or, Bool.or_eq_true, or_comm]
  exact or_congr_left Nat.testBit_one_eq_true_iff_self_eq_zero

section

variable (sQuantTable : Nat → Int16) (iQuantTable iMCU : Nat) (ucMaxACRow : UInt8)

/-- Column `c` of a block. -/
def columnOf (m : Nat → Int16) (c : Nat) : List Int32 :=
  idctColumn (fun row => (m (iMCU + c + 8 * row)).toInt32)
    (fun row => (sQuantTable (iQuantTable * 64 + c + 8 * row)).toInt32)
    (ucMaxACRow &&& UInt8.ofNat (1 <<< c) ≠ 0)

/-- The columns do not overlap. -/
theorem storeColumn_other (m : Nat → Int16) (l : List Int32) (row : Nat) {b c : Nat} (hb : b < 8)
    (hc : c < 8) (hne : c ≠ b) :
    storeColumn m (iMCU + b) l (iMCU + c + 8 * row) = m (iMCU + c + 8 * row) :=
  storeColumn_off _ fun i _ => by omega

/-- The loop does not come back to a column. -/
theorem idctColumns_before {n iCol : Nat} (hn : iCol + n = 8) (ucColMask : UInt8) (m : Nat → Int16)
    (r : Nat) {c : Nat} (hc : c < iCol) :
    idctColumns sQuantTable iQuantTable iMCU ucMaxACRow n iCol ucColMask m (iMCU + c + 8 * r) =
      m (iMCU + c + 8 * r) := by
  induction n generalizing iCol ucColMask m with
  | zero => rfl
  | succ n ih =>
    rw [idctColumns]
    split
    · dsimp only
      split
      · rw [ih (by omega) _ _ (by omega),
          storeColumn_other _ _ _ _ (by omega) (by omega) (by omega)]
      · exact ih (by omega) _ _ (by omega)
    · rfl

/-- Each occupied column is replaced by its values, and the others stay. -/
theorem idctColumns_at {n iCol : Nat} (hn : iCol + n = 8) (ucColMask : UInt8) (m : Nat → Int16)
    {r c : Nat} (hlow : iCol ≤ c) (hc : c < 8) {x : Int32}
    (hx : (columnOf sQuantTable iQuantTable iMCU ucMaxACRow m c)[r]? = some x) :
    idctColumns sQuantTable iQuantTable iMCU ucMaxACRow n iCol ucColMask m (iMCU + c + 8 * r) =
      if ucColMask.toNat.testBit c = true then x.toInt16 else m (iMCU + c + 8 * r) := by
  induction n generalizing iCol ucColMask m with
  | zero => omega
  | succ n ih =>
    rw [idctColumns]
    split
    · dsimp only
      rcases Nat.eq_or_lt_of_le hlow with rfl | hlt
      · -- its turn
        split
        · rename_i hbit
          rw [if_pos ((and_bit_ne_zero _ hc).mp hbit),
            idctColumns_before _ _ _ _ (by omega) _ _ _ (Nat.lt_succ_self _)]
          exact storeColumn_on m hx
        · rename_i hbit
          rw [if_neg fun h => hbit ((and_bit_ne_zero _ hc).mpr h),
            idctColumns_before _ _ _ _ (by omega) _ _ _ (Nat.lt_succ_self _)]
      · split
        · -- another column is replaced before
          have hother := fun l row => storeColumn_other iMCU m l row (b := iCol) (c := c) (by omega)
            hc (by omega)
          rw [ih (by omega) _ _ hlt, testBit_clear _ (by omega) hc (by omega), hother]
          simp only [columnOf, hother]
          exact hx
        · exact ih (by omega) _ _ hlt hx
    · rename_i hmask
      -- the loop ends early: no flag is left
      simp [not_not.mp hmask]

end

end Ivy.Spec
