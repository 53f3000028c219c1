import Ivy.ForStd.CanonicalCode
import Ivy.ForStd.Memory
import Mathlib.Algebra.Group.Int.Defs
import Mathlib.Algebra.Group.Nat.Defs
import Mathlib.Algebra.Ring.Nat

/-!
# The Huffman tables of the JPEG decoder

`JPEGGetHuffTables` copies the tables of a DHT segment, and `JPEGMakeHuffTables` expands them for
the decoder: a code is looked up by the next bits of the data, with one table for short codes and
one for the long codes that begin with ones only.

The arrays lie one behind the other in `JPEGIMAGE`: `ucHuffDC` has room for two tables, and what is
written behind it is written to `usHuffAC`. The memory is total. What lies behind `usHuffAC` is not
part of the model, but a write to it is.
-/

namespace Ivy.Native

open Canonical (Codeword)

/-- `HUFF_TABLEN` -/
def huffTablen : Nat := 273

/-- `DC_TABLE_SIZE` -/
def dcTableSize : Nat := 1024

/-- `HUFF11SIZE` -/
def huff11Size : Nat := 2048

/-- The number of elements of `usHuffAC`. -/
def usHuffACSize : Nat := huff11Size * 2

/-- The fields of `JPEGIMAGE` for the Huffman tables. The tables are held in `usPixels`, as bytes,
    until they are expanded. -/
structure HuffTables where
  ucHuffTableUsed : UInt8
  ucMode : UInt8
  pHuffVals : Nat → UInt8
  /-- the memory from `ucHuffDC` on -/
  ucHuffDC : Nat → UInt8

/-- The number of bytes of `ucHuffDC`, behind which `usHuffAC` lies. -/
def ucHuffDCSize : Nat := dcTableSize * 2

/-- `usHuffAC`, with the low byte of an element first. -/
def HuffTables.usHuffAC (h : HuffTables) (i : Nat) : UInt16 :=
  (h.ucHuffDC (ucHuffDCSize + 2 * i)).toUInt16 |||
    (h.ucHuffDC (ucHuffDCSize + 2 * i + 1)).toUInt16 <<< 8

/-- The memory with these elements of `usHuffAC`. -/
def HuffTables.withHuffAC (h : HuffTables) (table : Nat → UInt16) : HuffTables :=
  { h with
    ucHuffDC := fun a =>
      if a < ucHuffDCSize then h.ucHuffDC a
      else
        let v := table ((a - ucHuffDCSize) / 2)
        if a % 2 = 0 then v.toUInt8 else (v >>> 8).toUInt8 }

/-! ## `JPEGGetHuffTables` -/

/-- `1 << ucTable`, as far as it fits into `ucHuffTableUsed`. A shift by 32 or more is undefined;
    the processor takes it modulo 32. -/
def tableBit (ucTable : UInt8) : UInt8 := ((1 : UInt32) <<< ucTable.toUInt32).toUInt8

/-- The index of a table: the AC tables come behind the DC tables. -/
def tableIndex (ucTable : UInt8) : UInt8 :=
  if ucTable &&& 0x10 ≠ 0 then ucTable ^^^ 0x14 else ucTable

/-- The loop of `JPEGGetHuffTables`, for at most `fuel` rounds; the result is what it returns. A
    table number above 7 is passed over without counting it, so that the loop may not end. -/
def jpegGetHuffTables (pBuf : Nat → UInt8) :
    Nat → Nat → Int → HuffTables → Option (HuffTables × Int)
  | 0, _, _, _ => none
  | fuel + 1, iOffset, iLen, h =>
    if iLen > 17 then
      let ucTable := tableIndex (pBuf iOffset)
      -- the table counts as used before it is known to be valid
      let h := { h with ucHuffTableUsed := h.ucHuffTableUsed ||| tableBit ucTable }
      if ucTable ≤ 7 then
        let iTableOffset := ucTable.toNat * huffTablen
        let lengths := Mem.load pBuf (iOffset + 1) 16
        -- the number of symbols
        let j := (lengths.map UInt8.toNat).sum
        let h := { h with pHuffVals := Mem.store h.pHuffVals iTableOffset lengths }
        let iLen := iLen - 17
        -- bogus bit lengths
        if j = 0 ∨ j > 256 ∨ (j : Int) > iLen then some (h, -1)
        else
          let vals := Mem.load pBuf (iOffset + 17) j
          let h := { h with pHuffVals := Mem.store h.pHuffVals (iTableOffset + 16) vals }
          jpegGetHuffTables pBuf fuel (iOffset + 17 + j) (iLen - j) h
      else jpegGetHuffTables pBuf fuel (iOffset + 1) iLen h
    else some (h, 0)

/-! ## `JPEGMakeHuffTables` -/

/-- The variables of the loops over the codes of one table. -/
structure CodeLoop (β : Type) where
  cc : Nat
  p : Nat
  table : Nat → β

section

variable {β : Type} (enter : Codeword UInt8 → (Nat → β) → Option (Nat → β)) (vals : Nat → UInt8)

/-- `while (iLen)`: the codes of `iBitNum` bits. -/
def codesOfLength (iBitNum : Nat) : Nat → CodeLoop β → CodeLoop β × Bool
  | 0, s => (s, true)
  | iLen + 1, s =>
    match enter ⟨iBitNum, s.cc, vals s.p⟩ s.table with
    | some table => codesOfLength iBitNum iLen ⟨s.cc + 1, s.p + 1, table⟩
    | none => (s, false)

/-- The loop over the bit lengths, from `iBitNum` on for `n` lengths. -/
def codesOfTable (iMaxLength pBits : Nat) : Nat → Nat → CodeLoop β → CodeLoop β × Bool
  | 0, _, s => (s, true)
  | n + 1, iBitNum, s =>
    let iLen := (vals (pBits + (iBitNum - 1))).toNat
    -- we can't handle codes longer than a certain length
    if iBitNum > iMaxLength ∧ iLen > 0 then (s, false)
    else
      match codesOfLength enter vals iBitNum iLen s with
      -- the next length has one more bit
      | (s, true) => codesOfTable iMaxLength pBits n (iBitNum + 1) { s with cc := s.cc <<< 1 }
      | (s, false) => (s, false)

end

/-- Where the entries of a DC code begin in its table, and `count`: there are `2 ^ count` of them.
    `none` if the code does not fit.

    `cc >> (iBitNum - 5)` is a shift by a negative number for codes of less than 5 bits, which the
    processor takes modulo 32: no bit is left then. -/
def dcSlot (iBitNum cc : Nat) : Option (Nat × Nat) :=
  if 5 ≤ iBitNum ∧ cc >>> (iBitNum - 5) = 0x1f then
    let count := 12 - iBitNum
    some (128 + ((cc <<< count) &&& 0x7f), count)
  else if iBitNum ≤ 6 then
    let count := 6 - iBitNum
    some (cc <<< count, count)
  else none

/-- `ucCoeff`: the difference that the magnitude bits `j` stand for. -/
def dcCoeff (ucMag j : Nat) : UInt8 :=
  if j.testBit (ucMag - 1) then UInt8.ofNat j else UInt8.ofInt ((j : Int) - (2 ^ ucMag - 1))

/-- The differences of a code, for all bits that may follow it. -/
def dcCoeffs (ucMag count : Nat) : List UInt8 :=
  (List.range (2 ^ ucMag)).flatMap fun j => List.replicate (2 ^ (count - ucMag)) (dcCoeff ucMag j)

/-- Do the magnitude bits fit in the lookup of the code? -/
def precalculated (ucMode : UInt8) (c : Codeword UInt8) : Bool :=
  c.sym ≠ 0 ∧ c.sym.toNat + c.len ≤ 6 ∧ ucMode ≠ 0xc2

/-- `ucCode`: the code and, above it, how many bits are used up. -/
def dcEntry (ucMode : UInt8) (c : Codeword UInt8) : UInt8 :=
  -- the magnitude bits are used up with the code
  -- the differences lie 512 bytes behind their codes
  if precalculated ucMode c then c.sym ||| UInt8.ofNat ((c.len + c.sym.toNat) <<< 4)
  else c.sym ||| UInt8.ofNat (c.len <<< 4)

/-- One code of the DC table at `base`. -/
def dcEnter (ucMode : UInt8) (base : Nat) (c : Codeword UInt8) (table : Nat → UInt8) :
    Option (Nat → UInt8) :=
  (dcSlot c.len c.code).map fun (offset, count) =>
    let table :=
      if precalculated ucMode c then
        Mem.store table (base + offset + 512) (dcCoeffs c.sym.toNat count)
      else table
    Mem.store table (base + offset) (List.replicate (2 ^ count) (dcEntry ucMode c))

/-- The same for AC codes. -/
def acSlot (iBitNum cc : Nat) : Option (Nat × Nat) :=
  if 6 ≤ iBitNum ∧ cc >>> (iBitNum - 6) = 0x3f then
    let count := 16 - iBitNum
    some (1024 + ((cc <<< count) &&& 0x3ff), count)
  else if iBitNum ≤ 10 then
    let count := 10 - iBitNum
    some (cc <<< count, count)
  else none

/-- `code`: the code and, above it, its length. For thumbnails the extra bits are skipped, and the
    code is replaced by the increment of the AC index. -/
def acEntry (bThumbnail : Bool) (c : Codeword UInt8) : UInt16 :=
  -- only the lengths matter
  if bThumbnail ∧ c.sym ≠ 0 then
    UInt16.ofNat ((c.len + (c.sym &&& 0xf).toNat) <<< 8) ||| ((c.sym >>> 4) + 1).toUInt16
  else c.sym.toUInt16 ||| UInt16.ofNat (c.len <<< 8)

/-- One code of the AC table at `base`. -/
def acEnter (bThumbnail : Bool) (base : Nat) (c : Codeword UInt8) (table : Nat → UInt16) :
    Option (Nat → UInt16) :=
  (acSlot c.len c.code).map fun (offset, count) =>
    Mem.store table (base + offset) (List.replicate (2 ^ count) (acEntry bThumbnail c))

/-- Where `JPEGDecodeMCU` looks up the next 12 bits of the data in a DC table. -/
def dcIndex (ulCode : UInt32) : UInt32 :=
  if ulCode ≥ 0xf80 then ulCode &&& 0xff else ulCode >>> 6

/-- Where it looks up the next 16 bits of the data in an AC table. -/
def acIndex (ulCode : UInt32) : UInt32 :=
  if ulCode ≥ 0xfc00 then ulCode &&& 0x7ff else ulCode >>> 6

namespace HuffTables

/-- `ucHuffTableUsed & (1 << i)` -/
def used (h : HuffTables) (i : Nat) : Bool := h.ucHuffTableUsed.toNat.testBit i

/-- The DC table `iTable`. -/
def makeDc (iTable : Nat) (h : HuffTables) : HuffTables × Bool :=
  let pBits := iTable * huffTablen
  let (s, ok) := codesOfTable (dcEnter h.ucMode (iTable * dcTableSize)) h.pHuffVals 12 pBits 16 1
    ⟨0, pBits + 16, h.ucHuffDC⟩
  ({ h with ucHuffDC := s.table }, ok)

/-- The AC table `iTable`. Codes of all 16 lengths are looked at. -/
def makeAc (bThumbnail : Bool) (iTable : Nat) (h : HuffTables) : HuffTables × Bool :=
  let pBits := (iTable + 4) * huffTablen
  -- there is room for two tables only
  if iTable * huff11Size ≥ usHuffACSize then (h, false)
  else
    let (s, ok) := codesOfTable (acEnter bThumbnail (iTable * huff11Size)) h.pHuffVals 16 pBits 16 1
      ⟨0, pBits + 16, h.usHuffAC⟩
    (h.withHuffAC s.table, ok)

/-- The loops over the tables, from `iTable` on for `n` tables; the bit of a table is `first` bits
    above its number. -/
def makeEach (make : Nat → HuffTables → HuffTables × Bool) (first : Nat) :
    Nat → Nat → HuffTables → HuffTables × Bool
  | 0, _, h => (h, true)
  | n + 1, iTable, h =>
    if h.used (iTable + first) then
      match make iTable h with
      | (h, true) => makeEach make first n (iTable + 1) h
      | (h, false) => (h, false)
    else makeEach make first n (iTable + 1) h

/-- `JPEGMakeHuffTables` -/
def jpegMakeHuffTables (bThumbnail : Bool) (h : HuffTables) : HuffTables × Bool :=
  match makeEach makeDc 0 4 0 h with
  | (h, true) => makeEach (makeAc bThumbnail) 4 4 0 h
  | (h, false) => (h, false)

end HuffTables

end Ivy.Native
