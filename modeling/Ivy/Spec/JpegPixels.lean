import Ivy.Native.JpegScan
import Ivy.Spec.JpegBlock

/-!
# The pixels of a block

What `JPEGIDCT` and the fill make of a block depends only on its coefficients, and they only touch
the block. A block without AC coefficients is filled with what the inverse DCT would make of it.
-/

namespace Ivy.Spec

open Ivy.Native

/-! ## Only the block is touched -/

/-- The block at `iMCU` is the block at 0 of the memory `m'`, and outside of it nothing has changed
    since `m₀`. -/
structure InBlockOnly (iMCU : Nat) (m₀ m m' : Nat → Int16) : Prop where
  block : ∀ j < 64, m (iMCU + j) = m' j
  frame : ∀ a, a < iMCU ∨ iMCU + 64 ≤ a → m a = m₀ a

section

variable {iMCU : Nat} {m₀ m m' : Nat → Int16}

/-- Storing in the block. -/
theorem InBlockOnly.store (h : InBlockOnly iMCU m₀ m m') {a : Nat} {l : List Int16}
    (ha : a + l.length ≤ 64) :
    InBlockOnly iMCU m₀ (Mem.store m (iMCU + a) l) (Mem.store m' a l) := by
  refine ⟨fun j hj => ?_, fun b hb => ?_⟩
  · simp only [Mem.store, Nat.add_le_add_iff_left, Nat.add_sub_add_left, h.block j hj]
  · rcases hb with hb | hb
    · rw [Mem.store_of_lt _ _ (by omega), h.frame b (.inl hb)]
    · rw [Mem.store_of_ge _ _ (by omega), h.frame b (.inr hb)]

/-- Storing a column of the block. -/
theorem InBlockOnly.storeColumn (h : InBlockOnly iMCU m₀ m m') {a : Nat} {l : List Int32}
    (ha : a + 8 * l.length ≤ 64 + 7) :
    InBlockOnly iMCU m₀ (Native.storeColumn m (iMCU + a) l) (Native.storeColumn m' a l) := by
  induction l generalizing m m' a with
  | nil => exact h
  | cons x xs ih =>
    rw [List.length_cons] at ha
    rw [Native.storeColumn, Native.storeColumn, Nat.add_assoc]
    refine ih (h.store ?_) (by omega)
    simp only [List.length_singleton]
    omega

/-- A column has eight values. -/
theorem length_idctColumn (src quant : Nat → Int32) (full : Bool) :
    (idctColumn src quant full).length = 8 := by
  rw [idctColumn]
  split <;> rfl

/-- A column's values depend on its eight coefficients. -/
theorem idctColumn_congr {src src' : Nat → Int32} (quant : Nat → Int32) (full : Bool)
    (h : ∀ i < 8, src i = src' i) : idctColumn src quant full = idctColumn src' quant full := by
  simp only [idctColumn, columnEven, columnOdd, columnEvenHalf, columnOddHalf, h 0 (by decide),
    h 1 (by decide), h 2 (by decide), h 3 (by decide), h 4 (by decide), h 5 (by decide),
    h 6 (by decide), h 7 (by decide)]

/-- The column pass stays in its block. -/
theorem InBlockOnly.idctColumns (sQuantTable : Nat → Int16) (iQuantTable : Nat)
    (ucMaxACRow : UInt8) {n iCol : Nat} (hn : iCol + n ≤ 8) (ucColMask : UInt8)
    (h : InBlockOnly iMCU m₀ m m') :
    InBlockOnly iMCU m₀
      (Native.idctColumns sQuantTable iQuantTable iMCU ucMaxACRow n iCol ucColMask m)
      (Native.idctColumns sQuantTable iQuantTable 0 ucMaxACRow n iCol ucColMask m') := by
  induction n generalizing iCol ucColMask m m' with
  | zero => exact h
  | succ n ih =>
    rw [Native.idctColumns, Native.idctColumns]
    split
    · dsimp only
      split
      · -- the column reads its own block only
        have hsrc : ∀ row < 8, (m (iMCU + iCol + 8 * row)).toInt32 =
            (m' (0 + iCol + 8 * row)).toInt32 := by
          intro row hrow
          rw [Nat.add_assoc, h.block _ (by omega), Nat.zero_add]
        rw [idctColumn_congr _ _ hsrc, Nat.zero_add]
        refine ih (by omega) _ (h.storeColumn ?_)
        rw [length_idctColumn]
        omega
      · exact ih (by omega) _ h
    · exact h

/-- A row has eight pixels. -/
theorem length_idctRow (ucMaxACCol : UInt8) (src : Nat → Int32) :
    (idctRow ucMaxACCol src).length = 8 := by
  rw [idctRow]
  split
  · split <;> rfl
  · rfl

/-- A row's pixels depend on its eight values. -/
theorem idctRow_congr {src src' : Nat → Int32} (ucMaxACCol : UInt8)
    (h : ∀ i < 8, src i = src' i) : idctRow ucMaxACCol src = idctRow ucMaxACCol src' := by
  simp only [idctRow, h 0 (by decide), h 1 (by decide), h 2 (by decide), h 3 (by decide),
    h 4 (by decide), h 5 (by decide), h 6 (by decide), h 7 (by decide)]

/-- Two bytes for a word. -/
theorem length_packBytes (l : List UInt8) : (packBytes l).length = l.length / 2 := by
  induction l using packBytes.induct with
  | case1 lo hi rest ih =>
    simp only [packBytes, List.length_cons, ih]
    omega
  | case2 l hl =>
    match l, hl with
    | [], _ => rfl
    | [_], _ => simp [packBytes]
    | lo :: hi :: rest, hl => exact absurd rfl (hl lo hi rest)

/-- The row pass stays in its block. -/
theorem InBlockOnly.idctRows (ucMaxACCol : UInt8) {n iRow : Nat} (hn : iRow + 8 * n ≤ 64)
    (h : InBlockOnly iMCU m₀ m m') :
    InBlockOnly iMCU m₀ (Native.idctRows iMCU ucMaxACCol n iRow m)
      (Native.idctRows 0 ucMaxACCol n iRow m') := by
  induction n generalizing iRow m m' with
  | zero => exact h
  | succ n ih =>
    rw [Native.idctRows, Native.idctRows]
    -- the row reads its own block only
    have hsrc : ∀ col < 8, (m (iMCU + iRow + col)).toInt32 = (m' (0 + iRow + col)).toInt32 := by
      intro col hcol
      rw [Nat.add_assoc, h.block _ (by omega), Nat.zero_add]
    rw [idctRow_congr _ hsrc]
    simp only [Nat.zero_add]
    refine ih (by omega) (h.store ?_)
    rw [length_packBytes, List.length_map, length_idctRow]
    omega

/-- So does the reduced transform. -/
theorem InBlockOnly.idctQuarter (sQuantTable : Nat → Int16) (iQuantTable : Nat)
    (h : InBlockOnly iMCU m₀ m m') :
    InBlockOnly iMCU m₀ (Native.idctQuarter sQuantTable iQuantTable iMCU m)
      (Native.idctQuarter sQuantTable iQuantTable 0 m') := by
  simp only [Native.idctQuarter, h.block 1 (by decide), h.block 8 (by decide),
    h.block 9 (by decide), h.block 0 (by decide), Nat.zero_add]
  exact h.store (a := 0) (by simp [length_packBytes])

/-- `JPEGIDCT` stays in its block. -/
theorem InBlockOnly.jpegIDCT (quarter : Bool) (sQuantTable : Nat → Int16) (iQuantTable : Nat)
    (iACFlags : UInt16) (h : InBlockOnly iMCU m₀ m m') :
    InBlockOnly iMCU m₀ (Native.jpegIDCT quarter sQuantTable iQuantTable iMCU iACFlags m)
      (Native.jpegIDCT quarter sQuantTable iQuantTable 0 iACFlags m') := by
  rw [Native.jpegIDCT, Native.jpegIDCT]
  dsimp only
  split
  · exact h.idctQuarter sQuantTable iQuantTable
  · exact (h.idctColumns sQuantTable iQuantTable _ (by decide) _).idctRows _ (by decide)

/-- So does the fill of a block without AC coefficients. -/
theorem InBlockOnly.fillBlock {iMaxFill : Nat} (hfill : iMaxFill ≤ 32) (iDCPred iQuant : Int32)
    (h : InBlockOnly iMCU m₀ m m') :
    InBlockOnly iMCU m₀ (Native.fillBlock iMaxFill iMCU iDCPred iQuant m)
      (Native.fillBlock iMaxFill 0 iDCPred iQuant m') := by
  refine h.store (a := 0) ?_
  rw [length_packBytes, List.length_replicate]
  omega

/-- At most 64 bytes are filled. -/
theorem iMaxFill_le (p : ScanInfo) : p.iMaxFill ≤ 16 := by
  rw [ScanInfo.iMaxFill]
  split <;> decide

/-- Either way the pixels of a block are made of its own coefficients. -/
theorem InBlockOnly.reconstruct (p : ScanInfo) (comp : Nat) (ucMaxACCol ucMaxACRow : UInt8)
    (iDCPred : Int32) (h : InBlockOnly iMCU m₀ m m') :
    InBlockOnly iMCU m₀ (p.reconstruct iMCU comp ucMaxACCol ucMaxACRow iDCPred m)
      (p.reconstruct 0 comp ucMaxACCol ucMaxACRow iDCPred m') := by
  rw [ScanInfo.reconstruct, ScanInfo.reconstruct]
  split
  · exact h.fillBlock (Nat.le_trans (iMaxFill_le p) (by decide)) _ _
  · exact h.jpegIDCT _ _ _ _

end

/-! ## The pixels that belong to some coefficients -/

/-- A block with the given coefficients. -/
def blockOf : List Int → AcLoop
  | [] => ⟨⟨0, 0, 0⟩, fun _ => 0, 0, 0⟩
  | dc :: acs => putAll 0 64 1 acs ⟨⟨0, 0, 0⟩, startBlock 0 (fun _ => 0) (Int16.ofInt dc), 0, 0⟩

/-- What a block with the given coefficients becomes, as words of two pixels. -/
def blockPixels (p : ScanInfo) (comp : Nat) (coefs : List Int) : List Int16 :=
  let b := blockOf coefs
  Mem.load (p.reconstruct 0 comp b.ucMaxACCol b.ucMaxACRow (Int32.ofInt (coefs.headD 0)) b.sMCUs)
    0 32

/-- The block that the coefficients are decoded to. -/
theorem holdsBlock_blockOf {coefs : List Int} (hlen : coefs.length = 64) :
    HoldsBlock 0 coefs (blockOf coefs).sMCUs (blockOf coefs).ucMaxACCol
      (blockOf coefs).ucMaxACRow := by
  match coefs, hlen with
  | dc :: acs, hlen => exact holdsBlock_putAll (by simpa using hlen) _ dc _ rfl

/-- Every place of a block has a coefficient. -/
theorem exists_unzigzag {j : Nat} (hj : j < 64) : ∃ k < 64, unzigzag k = j := by
  have hall : ∀ j < 64, cZigZag.getD j 0 < 64 ∧ unzigzag (cZigZag.getD j 0) = j := by decide
  exact ⟨_, hall j hj⟩

/-- Flags are their bits. -/
theorem flags_eq {f g : UInt8} (h : ∀ c, f.toNat.testBit c = true ↔ g.toNat.testBit c = true) :
    f = g := by
  apply UInt8.toNat_inj.mp
  apply Nat.eq_of_testBit_eq
  intro c
  exact Bool.eq_iff_iff.mpr (h c)

/-- The pixels of a block are those of its coefficients. -/
theorem reconstruct_holdsBlock (p : ScanInfo) (comp : Nat) {iMCU : Nat} {coefs : List Int}
    {sMCUs : Nat → Int16} {ucMaxACCol ucMaxACRow : UInt8} (hlen : coefs.length = 64)
    (h : HoldsBlock iMCU coefs sMCUs ucMaxACCol ucMaxACRow) :
    Mem.load (p.reconstruct iMCU comp ucMaxACCol ucMaxACRow (Int32.ofInt (coefs.headD 0)) sMCUs)
        iMCU 32 = blockPixels p comp coefs ∧
      ∀ a, a < iMCU ∨ iMCU + 64 ≤ a →
        p.reconstruct iMCU comp ucMaxACCol ucMaxACRow (Int32.ofInt (coefs.headD 0)) sMCUs a =
          sMCUs a := by
  -- both blocks hold the same coefficients and flags
  have hb := holdsBlock_blockOf hlen
  have hcol : ucMaxACCol = (blockOf coefs).ucMaxACCol :=
    flags_eq fun c => (h.col c).trans (hb.col c).symm
  have hrow : ucMaxACRow = (blockOf coefs).ucMaxACRow :=
    flags_eq fun c => (h.row c).trans (hb.row c).symm
  have hsame : InBlockOnly iMCU sMCUs sMCUs (blockOf coefs).sMCUs := by
    refine ⟨fun j hj => ?_, fun a _ => rfl⟩
    obtain ⟨k, hk, rfl⟩ := exists_unzigzag hj
    have hv : coefs[k]? = some coefs[k] := List.getElem?_eq_getElem (by omega)
    rw [h.coef k _ hv, ← Nat.zero_add (unzigzag k), hb.coef k _ hv]
  have hpix := hsame.reconstruct p comp ucMaxACCol ucMaxACRow (Int32.ofInt (coefs.headD 0))
  refine ⟨?_, hpix.frame⟩
  rw [blockPixels, ← hcol, ← hrow]
  apply List.ext_getElem?
  intro i
  by_cases hi : i < 32
  · rw [Mem.getElem?_load _ hi, Mem.getElem?_load _ hi, hpix.block i (by omega), Nat.zero_add]
  · rw [List.getElem?_eq_none (by simpa using hi), List.getElem?_eq_none (by simpa using hi)]

/-! ## Rows in place -/

/-- The pixels of row `r`, from the values that the columns have left. -/
def rowPixels (ucMaxACCol : UInt8) (m : Nat → Int16) (iMCU r : Nat) : List Int16 :=
  packBytes ((idctRow ucMaxACCol fun col => (m (iMCU + 8 * r + col)).toInt32).map rangeLimit)

/-- Eight pixels in four words. -/
theorem length_rowPixels (ucMaxACCol : UInt8) (m : Nat → Int16) (iMCU r : Nat) :
    (rowPixels ucMaxACCol m iMCU r).length = 4 := by
  rw [rowPixels, length_packBytes, List.length_map, length_idctRow]

/-- The pixels of a row are put over values that have been used: each row is calculated from what
    the columns have left, and stays as it is. -/
theorem idctRows_row (ucMaxACCol : UInt8) (iMCU n r₀ : Nat) (m : Nat → Int16) :
    (∀ a < iMCU + 4 * r₀, idctRows iMCU ucMaxACCol n (8 * r₀) m a = m a) ∧
      ∀ r, r₀ ≤ r → r < r₀ + n → Mem.load (idctRows iMCU ucMaxACCol n (8 * r₀) m) (iMCU + 4 * r) 4 =
        rowPixels ucMaxACCol m iMCU r := by
  induction n generalizing r₀ m with
  | zero => exact ⟨fun _ _ => rfl, fun r h h' => by omega⟩
  | succ n ih =>
    -- the pixels of a row take half the room of its coefficients
    have hhalf : 8 * r₀ / 2 = 4 * r₀ := by omega
    rw [idctRows, hhalf, ← rowPixels, show 8 * r₀ + 8 = 8 * (r₀ + 1) by omega]
    have hlen := length_rowPixels ucMaxACCol m iMCU r₀
    have hkept := Mem.load_store_at m (iMCU + 4 * r₀) (rowPixels ucMaxACCol m iMCU r₀)
    generalize hw : rowPixels ucMaxACCol m iMCU r₀ = w at hlen hkept ⊢
    obtain ⟨hframe, hrows⟩ := ih (r₀ + 1) (Mem.store m (iMCU + 4 * r₀) w)
    refine ⟨fun a ha => ?_, fun r hlow hhigh => ?_⟩
    · rw [hframe a (by omega), Mem.store_of_lt _ _ ha]
    · rcases Nat.eq_or_lt_of_le hlow with rfl | hlt
      · rw [hlen] at hkept
        rw [hw]
        exact Eq.trans (Mem.load_congr fun a _ ha => hframe a (by omega)) hkept
      · -- the row lies behind what has been written
        have hsrc : idctRow ucMaxACCol
            (fun col => (Mem.store m (iMCU + 4 * r₀) w (iMCU + 8 * r + col)).toInt32) =
              idctRow ucMaxACCol fun col => (m (iMCU + 8 * r + col)).toInt32 :=
          idctRow_congr _ fun col _ => by rw [Mem.store_of_ge _ _ (by omega)]
        rw [hrows r (by omega) (by omega), rowPixels, rowPixels, hsrc]

/-! ## Blocks without AC coefficients -/

/-- An index of 10 bits, from bit `k` of a value on. -/
theorem tableIndex {k : Nat} {n : Int32} (x : Int32) (hk : k ≤ 22)
    (hn : BitVec.smod n.toBitVec 32 = BitVec.ofNat 32 k) :
    ((x >>> n) &&& 0x3ff).toUInt32.toNat = x.toBitVec.toNat / 2 ^ k % 2 ^ 10 := by
  -- compared bit by bit
  have hshift : (x >>> n).toBitVec = x.toBitVec.sshiftRight k := by
    rw [Int32.toBitVec_shiftRight, hn, BitVec.sshiftRight_eq', BitVec.toNat_ofNat,
      Nat.mod_eq_of_lt (by omega)]
  have hnat : ((x >>> n) &&& 0x3ff).toUInt32.toNat =
      (x.toBitVec.sshiftRight k &&& BitVec.ofNat 32 (2 ^ 10 - 1)).toNat := by
    rw [← hshift]
    exact congrArg BitVec.toNat (Int32.toBitVec_and (x >>> n) 0x3ff)
  apply Nat.eq_of_testBit_eq
  intro i
  rw [hnat, ← BitVec.getLsbD, BitVec.getLsbD_and, BitVec.getLsbD_sshiftRight, BitVec.getLsbD_ofNat,
    Nat.testBit_two_pow_sub_one, Nat.testBit_mod_two_pow, Nat.testBit_div_two_pow, ← BitVec.getLsbD]
  by_cases hi : i < 10
  · rw [if_pos (by omega), Nat.add_comm k]
    simp [hi, show ¬ 32 ≤ i by omega, show i < 32 by omega]
  · simp [hi]

/-- Equal low halves. -/
theorem toBitVec_mod {x y : Int32} (h : x.toInt16 = y.toInt16) :
    x.toBitVec.toNat % 2 ^ 16 = y.toBitVec.toNat % 2 ^ 16 := by
  have hbits := congrArg (fun z => z.toBitVec.toNat) h
  simp only [Int32.toBitVec_toInt16] at hbits
  rwa [BitVec.signExtend_eq_setWidth_of_le _ (by decide), BitVec.toNat_setWidth,
    BitVec.signExtend_eq_setWidth_of_le _ (by decide), BitVec.toNat_setWidth] at hbits

/-- Only 16 bits of a value matter for the range limit. -/
theorem rangeLimit_congr {x y : Int32} (h : x.toInt16 = y.toInt16) :
    rangeLimit x = rangeLimit y := by
  have hbits := toBitVec_mod h
  rw [rangeLimit, rangeLimit, tableIndex (k := 5) _ (by decide) rfl,
    tableIndex (k := 5) _ (by decide) rfl,
    show x.toBitVec.toNat / 2 ^ 5 % 2 ^ 10 = y.toBitVec.toNat / 2 ^ 5 % 2 ^ 10 by omega]

section

variable {iMCU iQuantTable : Nat} {sQuantTable : Nat → Int16} {m : Nat → Int16} {iDCPred : Int32}

/-- A column in which only the first value is not zero. -/
theorem idctColumn_first (src quant : Nat → Int32) (h : ∀ i, 1 ≤ i → i < 8 → src i = 0) :
    idctColumn src quant false = List.replicate 8 (src 0 * quant 0) := by
  simp only [idctColumn, columnEvenHalf, columnOddHalf, h 1 (by decide) (by decide),
    h 2 (by decide) (by decide), h 3 (by decide) (by decide), idctOutput, Int32.zero_mul,
    Int32.mul_zero, Int32.zero_shiftRight]
  simp

/-- A row in which only the first value is not zero. -/
theorem idctRow_first {src : Nat → Int32} (h : src 1 = 0) :
    idctRow 0 src = List.replicate 8 (src 0) := by
  simp only [idctRow, h, idctOutput, Int32.zero_mul, Int32.zero_shiftRight]
  simp

/-- A column leaves the other cells. -/
theorem storeColumn_off {l : List Int32} {p a : Nat} (m : Nat → Int16)
    (ha : ∀ i < l.length, a ≠ p + 8 * i) : storeColumn m p l a = m a := by
  induction l generalizing m p with
  | nil => rfl
  | cons x xs ih =>
    -- the first cell, and the others eight further on
    have hfirst : a ≠ p := ha 0 (by simp)
    rw [storeColumn, ih]
    · rcases Nat.lt_or_gt_of_ne hfirst with hlt | hgt
      · exact Mem.store_of_lt _ _ hlt
      · exact Mem.store_of_ge _ _ hgt
    · intro i hi
      have hnext := ha (i + 1) (by simpa using hi)
      omega

/-- The cells of a column. -/
theorem storeColumn_on {l : List Int32} {p i : Nat} {x : Int32} (m : Nat → Int16)
    (hx : l[i]? = some x) : storeColumn m p l (p + 8 * i) = x.toInt16 := by
  induction l generalizing m p i with
  | nil => simp at hx
  | cons y ys ih =>
    rw [storeColumn]
    cases i with
    | zero =>
      simp only [List.getElem?_cons_zero, Option.some.injEq] at hx
      rw [storeColumn_off _ (by intro i _; omega), hx]
      exact Mem.store_of_getElem? (i := 0) m rfl
    | succ i =>
      rw [List.getElem?_cons_succ] at hx
      rw [show p + 8 * (i + 1) = p + 8 + 8 * i by omega]
      exact ih _ hx

/-- Without AC coefficients the columns only spread the DC coefficient over the first values of the
    rows. -/
theorem idctColumns_dc (sQuantTable : Nat → Int16) (iQuantTable : Nat)
    (hzero : ∀ j, 0 < j → j < 64 → m (iMCU + j) = 0) {r : Nat} (hr : r < 8) :
    idctColumns sQuantTable iQuantTable iMCU 0 8 0 1 m (iMCU + 8 * r) =
        ((m iMCU).toInt32 * (sQuantTable (iQuantTable * 64)).toInt32).toInt16 ∧
      idctColumns sQuantTable iQuantTable iMCU 0 8 0 1 m (iMCU + 8 * r + 1) = 0 := by
  -- only the first column is transformed
  have hcols : idctColumns sQuantTable iQuantTable iMCU 0 8 0 1 m =
      storeColumn m (iMCU + 0) (idctColumn (fun row => (m (iMCU + 0 + 8 * row)).toInt32)
        (fun row => (sQuantTable (iQuantTable * 64 + 0 + 8 * row)).toInt32) false) := by
    rw [idctColumns, if_pos (by decide)]
    dsimp only
    rw [if_pos (by decide), idctColumns, if_neg (by decide)]
    rfl
  have hcol := idctColumn_first (fun row => (m (iMCU + 0 + 8 * row)).toInt32)
    (fun row => (sQuantTable (iQuantTable * 64 + 0 + 8 * row)).toInt32) fun i hlow hhigh => by
      simp only [Nat.add_zero]
      rw [hzero (8 * i) (by omega) (by omega)]
      rfl
  rw [hcols, hcol]
  simp only [Nat.add_zero, Nat.mul_zero]
  constructor
  · exact storeColumn_on _ (List.getElem?_replicate_of_lt hr)
  · rw [storeColumn_off, Nat.add_assoc, hzero _ (by omega) (by omega)]
    intro i _
    omega

/-- Equal bytes make equal words. -/
theorem packBytes_replicate (n : Nat) (c : UInt8) :
    packBytes (List.replicate (2 * n) c) =
      List.replicate n (c.toUInt16 ||| (c.toUInt16 <<< 8)).toInt16 := by
  induction n with
  | zero => simp [packBytes]
  | succ n ih =>
    rw [show 2 * (n + 1) = 2 * n + 1 + 1 by omega, List.replicate_succ, List.replicate_succ,
      packBytes, ih, List.replicate_succ]

/-- Without AC coefficients all rows are the same. -/
theorem rowPixels_dc (hzero : ∀ j, 0 < j → j < 64 → m (iMCU + j) = 0)
    (hdc : m iMCU = iDCPred.toInt16) {r : Nat} (hr : r < 8) :
    rowPixels 0 (idctColumns sQuantTable iQuantTable iMCU 0 8 0 1 m) iMCU r =
      packBytes (List.replicate 8
        (rangeLimit (iDCPred * (sQuantTable (iQuantTable * 64)).toInt32))) := by
  obtain ⟨hfirst, hsecond⟩ := idctColumns_dc sQuantTable iQuantTable hzero hr
  -- the predictor and the product are cut to 16 bits on the way
  have hlimit : rangeLimit (iDCPred.toInt16.toInt32 *
        (sQuantTable (iQuantTable * 64)).toInt32).toInt16.toInt32 =
      rangeLimit (iDCPred * (sQuantTable (iQuantTable * 64)).toInt32) := by
    apply rangeLimit_congr
    rw [Int16.toInt16_toInt32, Int32.toInt16_mul, Int16.toInt16_toInt32, Int32.toInt16_mul]
  rw [rowPixels, idctRow_first, List.map_replicate, Nat.add_zero, hfirst, hdc, hlimit]
  rw [hsecond]
  rfl

/-- Where all AC coefficients are zero, the fill gives the pixels of the inverse DCT, for every
    predictor and every quantization value. -/
theorem fill_eq_idct (hzero : ∀ j, 0 < j → j < 64 → m (iMCU + j) = 0)
    (hdc : m iMCU = iDCPred.toInt16) :
    Mem.load (fillBlock 16 iMCU iDCPred (sQuantTable (iQuantTable * 64)).toInt32 m) iMCU 32 =
      Mem.load (jpegIDCT false sQuantTable iQuantTable iMCU 0 m) iMCU 32 := by
  -- both are 32 times the same word
  have hfill := Mem.load_store_at m iMCU (packBytes (List.replicate (4 * 16)
    (rangeLimit (iDCPred * (sQuantTable (iQuantTable * 64)).toInt32))))
  have hlen : (packBytes (List.replicate (4 * 16)
      (rangeLimit (iDCPred * (sQuantTable (iQuantTable * 64)).toInt32)))).length = 32 := by
    rw [length_packBytes, List.length_replicate]
  rw [hlen, packBytes_replicate 32] at hfill
  rw [fillBlock, packBytes_replicate 32, hfill]
  symm
  have hrows := (idctRows_row 0 iMCU 8 0
    (idctColumns sQuantTable iQuantTable iMCU 0 8 0 1 m)).2
  apply List.ext_getElem?
  intro i
  by_cases hi : i < 32
  · -- word `i` is in row `i / 4`
    have hrow := hrows (i / 4) (by omega) (by omega)
    rw [rowPixels_dc hzero hdc (by omega), packBytes_replicate 4] at hrow
    have hword := congrArg (·[i % 4]?) hrow
    simp only [Mem.getElem?_load _ (Nat.mod_lt i (show 0 < 4 by decide)), List.getElem?_replicate,
      if_pos (Nat.mod_lt i (show 0 < 4 by decide))] at hword
    rw [Mem.getElem?_load _ hi, List.getElem?_replicate, if_pos hi, ← hword,
      show iMCU + 4 * (i / 4) + i % 4 = iMCU + i by omega]
    rfl
  · rw [List.getElem?_eq_none (by simpa using hi), List.getElem?_eq_none (by simpa using hi)]

end

/-- No flag is set exactly if there are no AC coefficients. -/
theorem HoldsBlock.dc_only {iMCU : Nat} {coefs : List Int} {sMCUs : Nat → Int16}
    {ucMaxACRow : UInt8} (hlen : coefs.length = 64) (h : HoldsBlock iMCU coefs sMCUs 0 ucMaxACRow) :
    ucMaxACRow = 0 ∧ ∀ j, 0 < j → j < 64 → sMCUs (iMCU + j) = 0 := by
  -- a coefficient other than zero would have set its flag
  have hnone : ∀ k v, 0 < k → coefs[k]? = some v → v = 0 := by
    intro k v hk hv
    by_contra hne
    have hbit := (h.col (unzigzag k % 8)).mpr ⟨k, v, hk, hv, hne, rfl⟩
    simp at hbit
  refine ⟨flags_eq fun c => ⟨fun hc => ?_, fun hc => ?_⟩, fun j hpos hlt => ?_⟩
  · obtain ⟨k, v, hk, hv, hne, -⟩ := (h.row c).mp hc
    exact absurd (hnone k v hk hv) hne
  · simp at hc
  · obtain ⟨k, hk, rfl⟩ := exists_unzigzag hlt
    have hv : coefs[k]? = some coefs[k] := List.getElem?_eq_getElem (by omega)
    have hk0 : 0 < k := Nat.pos_of_ne_zero fun h0 => by
      rw [h0] at hpos
      exact absurd hpos (by decide)
    rw [h.coef k _ hv, hnone k _ hk0 hv]
    rfl

/-- At full size a block gets the pixels of `JPEGIDCT`, whichever way is taken. -/
theorem HoldsBlock.load_reconstruct (p : ScanInfo) (comp : Nat) {iMCU : Nat} {coefs : List Int}
    {sMCUs : Nat → Int16} {ucMaxACCol ucMaxACRow : UInt8} (hscale : p.scale = .full)
    (hlen : coefs.length = 64) (h : HoldsBlock iMCU coefs sMCUs ucMaxACCol ucMaxACRow) :
    Mem.load (p.reconstruct iMCU comp ucMaxACCol ucMaxACRow (Int32.ofInt (coefs.headD 0)) sMCUs)
        iMCU 32 =
      Mem.load (jpegIDCT false p.sQuantTable (p.jpci comp).quantTblNo.toNat iMCU
        (ucMaxACCol.toUInt16 ||| (ucMaxACRow.toUInt16 <<< 8)) sMCUs) iMCU 32 := by
  rw [ScanInfo.reconstruct, hscale]
  -- without AC coefficients the block is filled, which comes to the same
  by_cases hcol : ucMaxACCol = 0
  · subst hcol
    obtain ⟨rfl, hzero⟩ := h.dc_only hlen
    rw [if_pos (.inl rfl), ScanInfo.iMaxFill, hscale]
    refine fill_eq_idct hzero ?_
    rw [Int32.toInt16_ofInt]
    refine h.coef 0 (coefs.headD 0) ?_
    match coefs, hlen with
    | dc :: acs, _ => rfl
  · rw [if_neg (by simp [hcol])]
    rfl

/-- The quick way for blocks without AC components cannot be told from the inverse DCT: at full
    size, every decoded block gets the pixels that the inverse DCT makes of it. -/
theorem reconstruct_eq_idct (p : ScanInfo) (comp : Nat) {iMCU : Nat} {dc : Int} {acs : List Int}
    {sMCUs : Nat → Int16} {ucMaxACCol ucMaxACRow : UInt8} (hscale : p.scale = .full)
    (hlen : acs.length = 63)
    (h : HoldsBlock iMCU (dc :: acs) sMCUs ucMaxACCol ucMaxACRow) :
    Mem.load (p.reconstruct iMCU comp ucMaxACCol ucMaxACRow (Int32.ofInt dc) sMCUs) iMCU 32 =
      Mem.load (jpegIDCT false p.sQuantTable (p.jpci comp).quantTblNo.toNat iMCU
        (ucMaxACCol.toUInt16 ||| (ucMaxACRow.toUInt16 <<< 8)) sMCUs) iMCU 32 := by
  have hload := h.load_reconstruct p comp hscale (by rw [List.length_cons, hlen])
  rwa [List.headD_cons] at hload

/-- A block whose DC coefficient is 100. -/
theorem reconstruct_eq_idct_dc_only :
    ∃ sMCUs : Nat → Int16, sMCUs 0 = 100 ∧
      Mem.load (ScanInfo.reconstruct
          ⟨fun _ => 0, fun _ => 0, false, fun _ => 16, fun _ => ⟨0, 0, 0⟩, 0, 1, 0, .full⟩
          0 0 0 0 (Int32.ofInt 100) sMCUs) 0 32 =
        Mem.load (jpegIDCT false (fun _ => 16) 0 0 0 sMCUs) 0 32 :=
  ⟨(blockOf (100 :: List.replicate 63 0)).sMCUs, by decide,
    reconstruct_eq_idct
      ⟨fun _ => 0, fun _ => 0, false, fun _ => 16, fun _ => ⟨0, 0, 0⟩, 0, 1, 0, .full⟩ 0 rfl
      (List.length_replicate : (List.replicate 63 (0 : Int)).length = 63)
      (holdsBlock_blockOf (show (100 :: List.replicate 63 (0 : Int)).length = 64 from rfl))⟩

/-! ## Dequantization -/

/-- `cZigZag` is the inverse of `cZigZag2`. -/
theorem zigzag_unzigzag {k : Nat} (hk : k < 64) : cZigZag[unzigzag k]? = some k := by
  have hall : ∀ k < 64, cZigZag[unzigzag k]? = some k := by decide
  exact hall k hk

/-- Value `k` of a table goes to where coefficient `k` of a block is. -/
theorem fixQuantTable_at (o : Nat) (m : Nat → Int16) {k : Nat} (hk : k < 64) :
    fixQuantTable o m (o + unzigzag k) = prescale (m (o + k)) (iScaleBits.getD (unzigzag k) 0) := by
  have hplace := unzigzag_lt hk
  have htemp : Mem.store m o (cZigZag.map fun z => m (o + z)) (o + unzigzag k) = m (o + k) :=
    Mem.store_of_getElem? m (by rw [List.getElem?_map, zigzag_unzigzag hk]; rfl)
  rw [fixQuantTable]
  refine Mem.store_of_getElem? _ ?_
  rw [List.getElem?_map, List.getElem?_range hplace]
  simp only [Option.map_some, htemp]

/-- A table is prescaled in place. -/
theorem fixQuantTable_frame (o : Nat) (m : Nat → Int16) {a : Nat} (ha : a < o ∨ o + 64 ≤ a) :
    fixQuantTable o m a = m a := by
  rw [fixQuantTable]
  rcases ha with ha | ha
  · rw [Mem.store_of_lt _ _ ha, Mem.store_of_lt _ _ ha]
  · rw [Mem.store_of_ge _ _ (by simpa using ha), Mem.store_of_ge _ _ (by simpa [cZigZag] using ha)]

/-- Every table of the loop is fixed once, and the others are left as they are. -/
theorem fixQuantTables_at (n iTable : Nat) (m : Nat → Int16) {t k : Nat} (hk : k < 64) :
    fixQuantTables n iTable m (t * 64 + unzigzag k) =
      if iTable ≤ t ∧ t < iTable + n then prescale (m (t * 64 + k)) (iScaleBits.getD (unzigzag k) 0)
      else m (t * 64 + unzigzag k) := by
  have hplace := unzigzag_lt hk
  induction n generalizing iTable m with
  | zero => rw [fixQuantTables, if_neg (by omega)]
  | succ n ih =>
    rw [fixQuantTables, ih]
    -- the table is prescaled once, in its turn
    by_cases hthis : t = iTable
    · subst hthis
      rw [if_neg (by omega), if_pos (by omega), fixQuantTable_at _ _ hk]
    · rw [fixQuantTable_frame _ _ (by omega), fixQuantTable_frame _ _ (by omega)]
      by_cases hin : iTable + 1 ≤ t ∧ t < iTable + 1 + n
      · rw [if_pos hin, if_pos (by omega)]
      · rw [if_neg hin, if_neg (by omega)]

/-- The scale factors are positive and have 15 bits. -/
theorem iScaleBits_lt (i : Nat) : 0 ≤ (iScaleBits.getD i 0).toInt ∧
    (iScaleBits.getD i 0).toInt < 2 ^ 15 := by
  by_cases hi : i < 64
  · have hall : ∀ i < 64, 0 ≤ (iScaleBits.getD i 0).toInt ∧
        (iScaleBits.getD i 0).toInt < 2 ^ 15 := by decide
    exact hall i hi
  · rw [List.getD_eq_default _ _ (by simpa [iScaleBits] using hi)]
    decide

/-- Values of up to 12 bits lose nothing but the fraction. -/
theorem prescale_toInt {q : Int16} (hq : q.toUInt16.toNat < 2 ^ 12) (i : Nat) :
    (prescale q (iScaleBits.getD i 0)).toInt =
      q.toUInt16.toNat * (iScaleBits.getD i 0).toInt / 4096 := by
  obtain ⟨hlow, hhigh⟩ := iScaleBits_lt i
  -- the value is not negative
  have hvalue : q.toUInt16.toUInt32.toInt32.toInt = q.toUInt16.toNat := by
    rw [toInt32_eq_ofInt, UInt16.toNat_toUInt32, Int32.toInt_ofInt, Int.bmod_eq_of_le] <;>
      simp only [Int32.size] <;> omega
  obtain ⟨s, hs⟩ : ∃ s, iScaleBits.getD i 0 = s := ⟨_, rfl⟩
  rw [hs] at hlow hhigh ⊢
  rw [prescale]
  generalize q.toUInt16.toUInt32.toInt32 = p at hvalue ⊢
  generalize q.toUInt16.toNat = x at hq hvalue ⊢
  have hnonneg : 0 ≤ (x : Int) * s.toInt := Int.mul_nonneg (by omega) hlow
  have hbound : (x : Int) * s.toInt ≤ 4095 * 32767 :=
    Int.mul_le_mul (by omega) (by omega) hlow (by decide)
  -- the product fits in 27 bits, so that neither the multiplication nor the last cast wraps
  have hmul : (p * s).toInt = x * s.toInt := by
    rw [Int32.toInt_mul, hvalue, Int.bmod_eq_of_le] <;> omega
  have hshift : ((p * s) >>> 12).toInt = x * s.toInt / 4096 := by
    rw [← Int32.toInt_toBitVec, Int32.toBitVec_shiftRight,
      show BitVec.smod (12 : Int32).toBitVec 32 = BitVec.ofNat 32 12 from rfl,
      BitVec.sshiftRight_eq', BitVec.toNat_ofNat, BitVec.toInt_sshiftRight, Int32.toInt_toBitVec,
      hmul, Int.shiftRight_eq_div_pow]
    rfl
  rw [Int32.toInt_toInt16, hshift, Int.bmod_eq_of_le] <;> omega

/-- Dequantization uses the order of the scan: behind `JPEGFixQuantD`, the place of coefficient `k`
    of a block has value `k` of the table, times the scale factor of the place. This only goes for
    as many tables as there are components, whichever tables the components use. -/
theorem dequantized_in_order (ucNumComponents : UInt8) (sQuantTable : Nat → Int16) (t : Nat)
    {k : Nat} (hk : k < 64) :
    (t < ucNumComponents.toNat → (sQuantTable (t * 64 + k)).toUInt16.toNat < 2 ^ 12 →
      (jpegFixQuantD ucNumComponents sQuantTable (t * 64 + unzigzag k)).toInt =
        (sQuantTable (t * 64 + k)).toUInt16.toNat * (iScaleBits.getD (unzigzag k) 0).toInt /
          4096) ∧
    (ucNumComponents.toNat ≤ t → jpegFixQuantD ucNumComponents sQuantTable (t * 64 + unzigzag k) =
      sQuantTable (t * 64 + unzigzag k)) := by
  rw [jpegFixQuantD, fixQuantTables_at _ _ _ hk]
  refine ⟨fun ht hq => ?_, fun ht => if_neg (by omega)⟩
  rw [if_pos (by omega), prescale_toInt hq]

/-- A table of the values 1 to 64 for the only component: the third and the fourth one go to the
    beginning of the second and of the third row. -/
theorem dequantized_in_order_distinct :
    (jpegFixQuantD 1 (fun i => Int16.ofNat (i + 1)) (0 * 64 + unzigzag 2)).toInt =
        3 * 22725 / 4096 ∧
      (jpegFixQuantD 1 (fun i => Int16.ofNat (i + 1)) (0 * 64 + unzigzag 3)).toInt =
        4 * 21407 / 4096 ∧ unzigzag 2 = 8 ∧ unzigzag 3 = 16 :=
  ⟨(dequantized_in_order 1 (fun i => Int16.ofNat (i + 1)) 0 (by decide : 2 < 64)).1 (by decide)
      (by decide),
    (dequantized_in_order 1 (fun i => Int16.ofNat (i + 1)) 0 (by decide : 3 < 64)).1 (by decide)
      (by decide), rfl, rfl⟩

end Ivy.Spec
