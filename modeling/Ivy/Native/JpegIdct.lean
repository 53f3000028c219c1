import Ivy.Native.JpegMcu

/-!
# The inverse DCT of the JPEG decoder

`JPEGIDCT` turns the 64 coefficients of a block into 64 bytes. It works in place: the bytes are put
over the coefficients, so that they take up the first half of the block. First the columns are
transformed, as far as they are occupied, then the rows. `int` is 32 bits wide.
-/

namespace Ivy.Native

/-- `ucRangeTable`: the values above 255 and the negative ones are limited. -/
def ucRangeTable : List UInt8 :=
  (List.range 128).map (fun i => UInt8.ofNat (0x80 + i)) ++ List.replicate 384 0xff ++
    List.replicate 384 0 ++ (List.range 128).map UInt8.ofNat

/-- `ucRangeTable[(x >> 5) & 0x3ff]` -/
def rangeLimit (x : Int32) : UInt8 :=
  ucRangeTable[((x >>> 5) &&& 0x3ff).toUInt32.toNat]?.getD 0

/-- `tmp0` to `tmp3` behind the even part. -/
structure EvenPart where
  tmp0 : Int32
  tmp1 : Int32
  tmp2 : Int32
  tmp3 : Int32
  deriving DecidableEq, Repr

/-- `tmp4` to `tmp7` behind the odd part. -/
structure OddPart where
  tmp4 : Int32
  tmp5 : Int32
  tmp6 : Int32
  tmp7 : Int32
  deriving DecidableEq, Repr

/-- The eight values of a column or row. -/
def idctOutput (e : EvenPart) (o : OddPart) : List Int32 :=
  [e.tmp0 + o.tmp7, e.tmp1 + o.tmp6, e.tmp2 + o.tmp5, e.tmp3 - o.tmp4,
    e.tmp3 + o.tmp4, e.tmp2 - o.tmp5, e.tmp1 - o.tmp6, e.tmp0 - o.tmp7]

/-! ## Columns -/

section

variable (src quant : Nat → Int32)

/-- The even part of a column that is only half populated. `src` and `quant` are numbered by the
    row. -/
def columnEvenHalf : EvenPart :=
  let tmp10 := src 0 * quant 0
  let tmp1 := src 2 * quant 2
  -- 106 / 256 is the square root of two, less one
  let tmp12 := (tmp1 * 106) >>> 8
  ⟨tmp10 + tmp1, tmp10 + tmp12, tmp10 - tmp12, tmp10 - tmp1⟩

/-- The odd part. The third row is usually 0. -/
def columnOddHalf : OddPart :=
  let tmp4 := src 1 * quant 1
  if src 3 ≠ 0 then
    let tmp5 := src 3 * quant 3
    let tmp7 := tmp4 + tmp5
    let tmp11 := ((tmp4 - tmp5) * 362) >>> 8
    let z5 := ((tmp4 - tmp5) * 473) >>> 8
    let tmp12 := ((-tmp5 * -669) >>> 8) + z5
    let tmp6 := tmp12 - tmp7
    let tmp5 := tmp11 - tmp6
    let tmp10 := ((tmp4 * 277) >>> 8) - z5
    ⟨tmp10 + tmp5, tmp5, tmp6, tmp7⟩
  -- the same with `tmp5` zero, the constants multiplied out
  else ⟨(-51 * tmp4) >>> 8, (145 * tmp4) >>> 8, (217 * tmp4) >>> 8, tmp4⟩

/-- The even part of the full column calculation. -/
def columnEven : EvenPart :=
  let tmp0 := src 0 * quant 0
  let (tmp10, tmp11) :=
    if src 4 ≠ 0 then
      let tmp2 := src 4 * quant 4
      (tmp0 + tmp2, tmp0 - tmp2)
    else (tmp0, tmp0)
  let tmp1 := src 2 * quant 2
  let (tmp13, tmp12) :=
    if src 6 ≠ 0 then
      let tmp3 := src 6 * quant 6
      (tmp1 + tmp3, (((tmp1 - tmp3) * 362) >>> 8) - (tmp1 + tmp3))
    else (tmp1, ((tmp1 * 362) >>> 8) - tmp1)
  ⟨tmp10 + tmp13, tmp11 + tmp12, tmp11 - tmp12, tmp10 - tmp13⟩

/-- The end of the odd part, which columns and rows have in common. -/
def oddPart (z10 z11 z12 z13 : Int32) : OddPart :=
  let tmp7 := z11 + z13
  let tmp11 := ((z11 - z13) * 362) >>> 8
  let z5 := ((z10 + z12) * 473) >>> 8
  let tmp12 := ((z10 * -669) >>> 8) + z5
  let tmp6 := tmp12 - tmp7
  let tmp5 := tmp11 - tmp6
  let tmp10 := ((z12 * 277) >>> 8) - z5
  ⟨tmp10 + tmp5, tmp5, tmp6, tmp7⟩

/-- The odd part of the full column calculation. -/
def columnOdd : OddPart :=
  let tmp5 := src 3 * quant 3
  let (z13, z10) :=
    if src 5 ≠ 0 then
      let tmp6 := src 5 * quant 5
      (tmp6 + tmp5, tmp6 - tmp5)
    else (tmp5, -tmp5)
  let tmp4 := src 1 * quant 1
  let (z11, z12) :=
    if src 7 ≠ 0 then
      let tmp7 := src 7 * quant 7
      (tmp4 + tmp7, tmp4 - tmp7)
    else (tmp4, tmp4)
  oddPart z10 z11 z12 z13

/-- One column; `full` is its bit of `ucMaxACRow`. -/
def idctColumn (full : Bool) : List Int32 :=
  if full then idctOutput (columnEven src quant) (columnOdd src quant)
  else idctOutput (columnEvenHalf src quant) (columnOddHalf src quant)

end

/-- Write eight values to every eighth element, from `p` on. -/
def storeColumn (m : Nat → Int16) (p : Nat) : List Int32 → Nat → Int16
  | [] => m
  | x :: xs => storeColumn (Mem.store m p [x.toInt16]) (p + 8) xs

/-- The loop over the columns, from column `iCol` on. -/
def idctColumns (sQuantTable : Nat → Int16) (iQuantTable iMCU : Nat) (ucMaxACRow : UInt8) :
    Nat → Nat → UInt8 → (Nat → Int16) → Nat → Int16
  | 0, _, _, m => m
  | n + 1, iCol, ucColMask, m =>
    if ucColMask ≠ 0 then
      let bit := UInt8.ofNat (1 <<< iCol)
      -- a column without coefficients stays zero
      if ucColMask &&& bit ≠ 0 then
        let src := fun row => (m (iMCU + iCol + 8 * row)).toInt32
        let quant := fun row => (sQuantTable (iQuantTable * 64 + iCol + 8 * row)).toInt32
        let m := storeColumn m (iMCU + iCol) (idctColumn src quant (ucMaxACRow &&& bit ≠ 0))
        idctColumns sQuantTable iQuantTable iMCU ucMaxACRow n (iCol + 1) (ucColMask &&& ~~~ bit) m
      else idctColumns sQuantTable iQuantTable iMCU ucMaxACRow n (iCol + 1) ucColMask m
    else m

/-! ## Rows -/

/-- One row. The calculation is quicker when only the first 2 or 4 columns are occupied. -/
def idctRow (ucMaxACCol : UInt8) (src : Nat → Int32) : List Int32 :=
  if ucMaxACCol < 0x10 then
    -- columns 0 and 1
    if ucMaxACCol < 0x04 then
      let tmp7 := src 1
      idctOutput ⟨src 0, src 0, src 0, src 0⟩
        ⟨-((tmp7 * 51) >>> 8), (tmp7 * 145) >>> 8, (tmp7 * 217) >>> 8, tmp7⟩
    else
      let tmp10 := src 0
      let tmp13 := src 2
      let tmp12 := (tmp13 * 106) >>> 8
      let z13 := src 3
      let z11 := src 1
      let tmp7 := z11 + z13
      let tmp11 := ((z11 - z13) * 362) >>> 8
      let z5 := ((z11 - z13) * 473) >>> 8
      let tmp6 := (((z13 * 669) >>> 8) + z5) - tmp7
      let tmp5 := tmp11 - tmp6
      idctOutput ⟨tmp10 + tmp13, tmp10 + tmp12, tmp10 - tmp12, tmp10 - tmp13⟩
        ⟨((z11 * 277) >>> 8) - z5 + tmp5, tmp5, tmp6, tmp7⟩
  else
    let tmp10 := src 0 + src 4
    let tmp11 := src 0 - src 4
    let tmp13 := src 2 + src 6
    let tmp12 := (((src 2 - src 6) * 362) >>> 8) - tmp13
    idctOutput ⟨tmp10 + tmp13, tmp11 + tmp12, tmp11 - tmp12, tmp10 - tmp13⟩
      (oddPart (src 5 - src 3) (src 1 + src 7) (src 1 - src 7) (src 5 + src 3))

/-- Bytes in the memory of the coefficients: each pair of them is one element. -/
def packBytes : List UInt8 → List Int16
  | lo :: hi :: rest => (lo.toUInt16 ||| (hi.toUInt16 <<< 8)).toInt16 :: packBytes rest
  | _ => []

/-- The loop over the rows, from `iRow` on. -/
def idctRows (iMCU : Nat) (ucMaxACCol : UInt8) : Nat → Nat → (Nat → Int16) → Nat → Int16
  | 0, _, m => m
  | n + 1, iRow, m =>
    let src := fun col => (m (iMCU + iRow + col)).toInt32
    -- the row's bytes take half of its room, so that no later row is overwritten
    let m := Mem.store m (iMCU + iRow / 2) (packBytes ((idctRow ucMaxACCol src).map rangeLimit))
    idctRows iMCU ucMaxACCol n (iRow + 8) m

/-- `JPEG_SCALE_QUARTER`: two rows of two values. -/
def idctQuarter (sQuantTable : Nat → Int16) (iQuantTable iMCU : Nat) (m : Nat → Int16) :
    Nat → Int16 :=
  let dequant := fun i => (m (iMCU + i)).toInt32 * (sQuantTable (iQuantTable * 64 + i)).toInt32
  let tmp0 := dequant 0 + dequant 8
  let tmp2 := dequant 0 - dequant 8
  let tmp1 := dequant 1 + dequant 9
  let tmp3 := dequant 1 - dequant 9
  Mem.store m iMCU
    (packBytes ([tmp0 + tmp1, tmp0 - tmp1, tmp2 + tmp3, tmp2 - tmp3].map rangeLimit))

/-- `JPEGIDCT`; `iACFlags` holds `ucMaxACRow` above `ucMaxACCol`. -/
def jpegIDCT (quarter : Bool) (sQuantTable : Nat → Int16) (iQuantTable iMCU : Nat)
    (iACFlags : UInt16) (m : Nat → Int16) : Nat → Int16 :=
  let ucMaxACRow := (iACFlags >>> 8).toUInt8
  let ucMaxACCol := iACFlags.toUInt8
  if quarter then idctQuarter sQuantTable iQuantTable iMCU m
  else
    -- column 0 must always be calculated
    let m := idctColumns sQuantTable iQuantTable iMCU ucMaxACRow 8 0 (ucMaxACCol ||| 1) m
    idctRows iMCU ucMaxACCol 8 0 m

/-! ## Blocks without AC components -/

/-- The fill of `DecodeJPEG` for a block without AC components, which saves some time. `iQuant` is
    the DC quantization value, and `iMaxFill` the number of words. -/
def fillBlock (iMaxFill iMCU : Nat) (iDCPred iQuant : Int32) (m : Nat → Int16) : Nat → Int16 :=
  let c := rangeLimit (iDCPred * iQuant)
  Mem.store m iMCU (packBytes (List.replicate (4 * iMaxFill) c))

/-! ## The quantization tables -/

/-- `cZigZag`: zigzag ordering. -/
def cZigZag : List Nat :=
  [0, 1, 5, 6, 14, 15, 27, 28,
    2, 4, 7, 13, 16, 26, 29, 42,
    3, 8, 12, 17, 25, 30, 41, 43,
    9, 11, 18, 24, 31, 40, 44, 53,
    10, 19, 23, 32, 39, 45, 52, 54,
    20, 22, 33, 38, 46, 51, 55, 60,
    21, 34, 37, 47, 50, 56, 59, 61,
    35, 36, 48, 49, 57, 58, 62, 63]

/-- `iScaleBits`: the scale factors of the rows and columns for the AA&N method. -/
def iScaleBits : List Int32 :=
  [16384, 22725, 21407, 19266, 16384, 12873, 8867, 4520,
    22725, 31521, 29692, 26722, 22725, 17855, 12299, 6270,
    21407, 29692, 27969, 25172, 21407, 16819, 11585, 5906,
    19266, 26722, 25172, 22654, 19266, 15137, 10426, 5315,
    16384, 22725, 21407, 19266, 16384, 12873, 8867, 4520,
    12873, 17855, 16819, 15137, 12873, 10114, 6967, 3552,
    8867, 12299, 11585, 10426, 8867, 6967, 4799, 2446,
    4520, 6270, 5906, 5315, 4520, 3552, 2446, 1247]

/-- `(uint16_t) ((p[i] * iScaleBits[i]) >> 12)`, where `p[i]` is unsigned. -/
def prescale (p : Int16) (iScale : Int32) : Int16 :=
  ((p.toUInt16.toUInt32.toInt32 * iScale) >>> 12).toInt16

/-- One table: it is brought into the order of the rows, and prescaled for the multiplication in
    the inverse DCT. -/
def fixQuantTable (iTableOffset : Nat) (sQuantTable : Nat → Int16) : Nat → Int16 :=
  -- first to the order of the rows, then scaled
  let sTemp := cZigZag.map fun z => sQuantTable (iTableOffset + z)
  let sQuantTable := Mem.store sQuantTable iTableOffset sTemp
  Mem.store sQuantTable iTableOffset ((List.range 64).map fun i =>
    prescale (sQuantTable (iTableOffset + i)) (iScaleBits.getD i 0))

/-- The loop over the tables, from `iTable` on. -/
def fixQuantTables : Nat → Nat → (Nat → Int16) → Nat → Int16
  | 0, _, sQuantTable => sQuantTable
  | n + 1, iTable, sQuantTable =>
    fixQuantTables n (iTable + 1) (fixQuantTable (iTable * 64) sQuantTable)

/-- `JPEGFixQuantD`: as many tables are fixed as there are components. -/
def jpegFixQuantD (ucNumComponents : UInt8) (sQuantTable : Nat → Int16) : Nat → Int16 :=
  fixQuantTables ucNumComponents.toNat 0 sQuantTable

end Ivy.Native
