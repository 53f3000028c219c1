import Ivy.Native.JpegHuffman
import Ivy.Native.JpegVlc

/-!
# The coefficients of a block

`JPEGDecodeMCU` decodes the 64 coefficients of one block. It looks at the data through a word of 32
bits, which is loaded again when less than 17 of them are left, and finds the codes in the expanded
Huffman tables.
-/

namespace Ivy.Native

/-- `MOTOLONG` -/
def motoLong (buf : Nat → UInt8) (p : Nat) : UInt32 :=
  ((buf p).toUInt32 <<< 24) + ((buf (p + 1)).toUInt32 <<< 16) + ((buf (p + 2)).toUInt32 <<< 8) +
    (buf (p + 3)).toUInt32

/-- `cZigZag2`: un-zigzag ordering. -/
def cZigZag2 : List Nat :=
  [0, 1, 8, 16, 9, 2, 3, 10,
    17, 24, 32, 25, 18, 11, 4, 5,
    12, 19, 26, 33, 40, 48, 41, 34,
    27, 20, 13, 6, 7, 14, 21, 28,
    35, 42, 49, 56, 57, 50, 43, 36,
    29, 22, 15, 23, 30, 37, 44, 51,
    58, 59, 52, 45, 38, 31, 39, 46,
    53, 60, 61, 54, 47, 55, 62, 63]

/-- `*pZig`, where `pZig` is an index into `cZigZag2`. -/
def unzigzag (pZig : Nat) : Nat := cZigZag2[pZig]?.getD 0

/-- The fields of `JPEGIMAGE` that `JPEGDecodeMCU` only reads. `reduced` is whether `iOptions` asks
    for a quarter or an eighth of the size. -/
structure McuTables where
  ucHuffDC : Nat → UInt8
  usHuffAC : Nat → UInt16
  ucDCTable : UInt8
  ucACTable : UInt8
  b11Bit : Bool
  reduced : Bool

/-- The fields that it changes. -/
structure McuState where
  vlc : Vlc
  sMCUs : Nat → Int16
  ucMaxACCol : UInt8
  ucMaxACRow : UInt8

/-- `if (ulBitOff > (REGISTER_WIDTH - 17))`: need to get more data. -/
def BufferedBits.refill (bb : BufferedBits) (buf : Nat → UInt8) : BufferedBits :=
  if bb.ulBitOff > 15 then
    let pBuf := bb.pBuf + (bb.ulBitOff >>> 3).toNat
    ⟨pBuf, motoLong buf pBuf, bb.ulBitOff &&& 7⟩
  else bb

/-- The next `n` bits. -/
def BufferedBits.peek (bb : BufferedBits) (n : UInt32) : UInt32 :=
  (bb.ulBits >>> (32 - n - bb.ulBitOff)) &&& ((1 <<< n) - 1)

/-- The value of the next `n` bits: the first one is the sign bit, which is slid across the
    others. -/
def BufferedBits.extra (bb : BufferedBits) (n : UInt32) : UInt32 :=
  let ulCode := bb.ulBits <<< bb.ulBitOff
  let ulTemp := ~~~ (ulCode.toInt32 >>> 31).toUInt32
  (ulCode >>> (32 - n)) - (ulTemp >>> (32 - n))

def BufferedBits.skip (bb : BufferedBits) (n : UInt32) : BufferedBits :=
  { bb with ulBitOff := bb.ulBitOff + n }

/-! ## The DC coefficient -/

/-- The new predictor; `none` for an invalid code. -/
def decodeDc (t : McuTables) (buf : Nat → UInt8) (bb : BufferedBits) (iDCPredictor : Int32) :
    Option (BufferedBits × Int32) :=
  let ulCode := t.ucDCTable.toNat * dcTableSize + (dcIndex (bb.peek 12)).toNat
  let ucHuff := t.ucHuffDC ulCode
  -- pre-calculated extra bits for "small" values
  let cCoeff := (t.ucHuffDC (ulCode + 512)).toInt8
  if ucHuff = 0 then none
  else
    let bb := bb.skip (ucHuff >>> 4).toUInt32
    let ucHuff := ucHuff &&& 0xf
    if ucHuff ≠ 0 then
      if cCoeff ≠ 0 then some (bb, iDCPredictor + cCoeff.toInt32)
      else
        let bb := bb.refill buf
        some (bb.skip ucHuff.toUInt32,
          iDCPredictor + (bb.extra ucHuff.toUInt32).toInt32)
    else some (bb, iDCPredictor)

/-! ## The AC coefficients -/

/-- Where the next 16 bits are looked up in the 11-bit "slow" tables. -/
def ac11Index (ulCode : UInt32) : UInt32 :=
  if ulCode ≥ 0xf000 then ulCode &&& 0x1fff else ulCode >>> 4

/-- The local variables of the loop. -/
structure AcLoop where
  bb : BufferedBits
  sMCUs : Nat → Int16
  ucMaxACCol : UInt8
  ucMaxACRow : UInt8

/-- Store a coefficient, and keep track of occupied columns, and of those with more than 4 rows. -/
def AcLoop.put (s : AcLoop) (iMCU z : Nat) (value : Int16) : AcLoop :=
  { s with
    ucMaxACCol := s.ucMaxACCol ||| UInt8.ofNat (1 <<< (z &&& 7))
    ucMaxACRow := if z ≥ 0x20 then s.ucMaxACRow ||| UInt8.ofNat (1 <<< (z &&& 7)) else s.ucMaxACRow
    sMCUs := Mem.store s.sMCUs (iMCU + z) [value] }

/-- `while (pZig < pEnd)`, with the part of the coefficients up to `pEnd2` that is stored. Each
    round takes at least one coefficient, so that as many rounds as coefficients are enough. The
    result says whether all codes were valid. -/
def acLoop (index : UInt32 → UInt32) (pFast : Nat → UInt16) (buf : Nat → UInt8)
    (iMCU pEnd2 : Nat) : Nat → Nat → AcLoop → AcLoop × Bool
  | 0, _, s => (s, true)
  | n + 1, pZig, s =>
    if pZig < 64 then
      let bb := s.bb.refill buf
      let usHuff := (pFast (index (bb.peek 16)).toNat).toUInt32
      -- invalid code
      if usHuff = 0 then (s, false)
      else
        let bb := bb.skip (usHuff >>> 8)
        let usHuff := usHuff &&& 0xff
        -- no more AC components
        if usHuff = 0 then ({ s with bb }, true)
        else
          let bb := bb.refill buf
          -- skip the zeros of the run
          let pZig := pZig + (usHuff >>> 4).toNat
          let usHuff := usHuff &&& 0xf
          let s :=
            if pZig < pEnd2 ∧ usHuff ≠ 0 then
              s.put iMCU (unzigzag pZig) (bb.extra usHuff).toInt32.toInt16
            else s
          acLoop index pFast buf iMCU pEnd2 n (pZig + 1) { s with bb := bb.skip usHuff }
    else (s, true)

/-- The coefficients that are cleared before, as some may be skipped. -/
def clearBlock (reduced : Bool) (iMCU : Nat) (sMCUs : Nat → Int16) : Nat → Int16 :=
  -- only these are read for a small picture
  if reduced then Mem.store (Mem.store sMCUs (iMCU + 1) [0]) (iMCU + 8) [0, 0]
  else Mem.store sMCUs iMCU (List.replicate 64 0)

/-- The loop over the AC coefficients, for the tables that are used. In the loop for the 11-bit
    tables all coefficients are stored. -/
def decodeAc (t : McuTables) (buf : Nat → UInt8) (iMCU : Nat) (s : AcLoop) : AcLoop × Bool :=
  let pFast := fun i => t.usHuffAC (t.ucACTable.toNat * huff11Size + i)
  if t.b11Bit then acLoop ac11Index pFast buf iMCU 64 63 1 s
  else acLoop acIndex pFast buf iMCU (if t.reduced then 5 else 64) 63 1 s

/-- `JPEGDecodeMCU`: the state, `iDCPredictor` and the result. -/
def jpegDecodeMCU (t : McuTables) (iMCU : Nat) (s : McuState) (iDCPredictor : Int32) :
    McuState × Int32 × Int :=
  let buf := s.vlc.ucFileBuf
  let bb := s.vlc.bb.refill buf
  let sMCUs := clearBlock t.reduced iMCU s.sMCUs
  match decodeDc t buf bb iDCPredictor with
  | none => ({ s with sMCUs }, iDCPredictor, -1)
  | some (bb, iDCPredictor) =>
    let sMCUs := Mem.store sMCUs iMCU [iDCPredictor.toInt16]
    -- unsupported
    if t.ucACTable > 1 then ({ s with sMCUs }, iDCPredictor, -1)
    else
      match decodeAc t buf iMCU ⟨bb, sMCUs, 0, 0⟩ with
      | (l, false) => ({ s with sMCUs := l.sMCUs }, iDCPredictor, -1)
      | (l, true) =>
        ({ vlc := { s.vlc with bb := l.bb, iVLCOff := l.bb.pBuf }
           sMCUs := l.sMCUs
           ucMaxACCol := l.ucMaxACCol
           ucMaxACRow := l.ucMaxACRow }, iDCPredictor, 0)

end Ivy.Native
