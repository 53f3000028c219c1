import Ivy.Native.JpegScan

/-!
# The pixels of the JPEG decoder

Behind each MCU its blocks are converted to RGB565 pixels and put into `usPixels`, the buffer for a
group of MCUs, which is copied into a draw block when the group is complete. This is the full size;
the 8-bit grayscale and the dithered pixel types are left out.
-/

namespace Ivy.Native

/-! ## One pixel -/

/-- The 8-bit value that an entry of the range tables stands for: 0 to 255, then 256 times the
    greatest value, then 512 zeros for the negative values. -/
def rangeEntry (i : Nat) : Nat := if i < 256 then i else if i < 512 then 255 else 0

def usRangeTableB (i : Nat) : UInt16 := UInt16.ofNat (rangeEntry i >>> 3)

def usRangeTableG (i : Nat) : UInt16 := UInt16.ofNat (rangeEntry i >>> 2 <<< 5)

def usRangeTableR (i : Nat) : UInt16 := UInt16.ofNat (rangeEntry i >>> 3 <<< 11)

def usGrayTo565 (i : Nat) : UInt16 := UInt16.ofNat (i >>> 3 <<< 11 ||| i >>> 2 <<< 5 ||| i >>> 3)

/-- `__builtin_bswap16` -/
def bswap16 (x : UInt16) : UInt16 := x <<< 8 ||| x >>> 8

/-- `(x >> 12) & 0x3ff` -/
def colorIndex (x : Int32) : Nat := ((x >>> 12) &&& 0x3ff).toUInt32.toNat

/-- `usPixel`, which all four functions below calculate in the same way. -/
def usPixel (iY iCb iCr : Int32) : UInt16 :=
  let iCBB := 7258 * (iCb - 0x80)
  let iCBG := -1409 * (iCb - 0x80)
  let iCRG := -2925 * (iCr - 0x80)
  let iCRR := 5742 * (iCr - 0x80)
  usRangeTableB (colorIndex (iCBB + iY)) ||| usRangeTableG (colorIndex (iCBG + iCRG + iY)) |||
    usRangeTableR (colorIndex (iCRR + iY))

/-- `JPEGPixelLE`, without SIMD instructions. -/
def jpegPixelLE (iY iCb iCr : Int32) : UInt16 := usPixel iY iCb iCr

def jpegPixelBE (iY iCb iCr : Int32) : UInt16 := bswap16 (usPixel iY iCb iCr)

/-- `JPEGPixel2LE`: two pixels as one word. -/
def jpegPixel2LE (iY1 iY2 iCb iCr : Int32) : UInt32 :=
  (usPixel iY1 iCb iCr).toUInt32 ||| (usPixel iY2 iCb iCr).toUInt32 <<< 16

def jpegPixel2BE (iY1 iY2 iCb iCr : Int32) : UInt32 :=
  (bswap16 (usPixel iY1 iCb iCr)).toUInt32 ||| (bswap16 (usPixel iY2 iCb iCr)).toUInt32 <<< 16

/-! ## One MCU -/

/-- Byte `i` from `sMCUs[iMCU]` on. -/
def mcuByte (sMCUs : Nat → Int16) (iMCU i : Nat) : UInt8 :=
  -- the low byte of an element comes first
  let w := (sMCUs (iMCU + i / 2)).toUInt16
  if i % 2 = 0 then w.toUInt8 else (w >>> 8).toUInt8

/-- The pointers `pY`, `pCb` and `pCr`, and the pixel type. -/
structure McuSource where
  sMCUs : Nat → Int16
  cb : Nat
  cr : Nat
  ucPixelType : PixelType

namespace McuSource

variable (src : McuSource)

/-- `pY[i] << 12` -/
def Y (i : Nat) : Int32 := (mcuByte src.sMCUs 0 i).toUInt32.toInt32 <<< 12

/-- `pCb[i]` -/
def Cb (i : Nat) : Int32 := (mcuByte src.sMCUs src.cb i).toUInt32.toInt32

/-- `pCr[i]` -/
def Cr (i : Nat) : Int32 := (mcuByte src.sMCUs src.cr i).toUInt32.toInt32

/-- One pixel to `pDest`. -/
def pixel (pDest y c : Nat) : List (Nat × UInt16) :=
  [(pDest, if src.ucPixelType = .rgb565LittleEndian then jpegPixelLE (src.Y y) (src.Cb c) (src.Cr c)
    else jpegPixelBE (src.Y y) (src.Cb c) (src.Cr c))]

/-- Two pixels to `pDest`, from `pY[y]` and `pY[y + 1]`. -/
def pixel2 (pDest y c : Nat) : List (Nat × UInt16) :=
  let ulPixel :=
    if src.ucPixelType = .rgb565LittleEndian then
      jpegPixel2LE (src.Y y) (src.Y (y + 1)) (src.Cb c) (src.Cr c)
    else jpegPixel2BE (src.Y y) (src.Y (y + 1)) (src.Cb c) (src.Cr c)
  [(pDest, ulPixel.toUInt16), (pDest + 1, (ulPixel >>> 16).toUInt16)]

end McuSource

/-- The pixels of `JPEGPutMCUGray`. -/
def jpegPutMCUGray (ucPixelType : PixelType) (sMCUs : Nat → Int16) (x iPitch : Nat) :
    List (Nat × UInt16) :=
  (List.range 8).flatMap fun i => (List.range 8).map fun j =>
    -- the gray value in all three colours
    let pix := usGrayTo565 (mcuByte sMCUs 0 (8 * i + j)).toNat
    (x + i * iPitch + j, if ucPixelType = .rgb565LittleEndian then pix else bswap16 pix)

/-- The pixels of `JPEGPutMCU11`. -/
def jpegPutMCU11 (ucPixelType : PixelType) (sMCUs : Nat → Int16) (x iPitch : Nat) :
    List (Nat × UInt16) :=
  let src : McuSource := ⟨sMCUs, 1 * 64, 2 * 64, ucPixelType⟩
  (List.range 8).flatMap fun iRow => (List.range 8).flatMap fun iCol =>
    src.pixel (x + iRow * iPitch + iCol) (8 * iRow + iCol) (8 * iRow + iCol)

/-- The pixels of `JPEGPutMCU12`; `iRow` counts pairs of rows. Behind the fourth pair `pY` skips to
    the next block. -/
def jpegPutMCU12 (ucPixelType : PixelType) (sMCUs : Nat → Int16) (x iPitch : Nat) :
    List (Nat × UInt16) :=
  let src : McuSource := ⟨sMCUs, 2 * 64, 3 * 64, ucPixelType⟩
  (List.range 8).flatMap fun iRow => (List.range 8).flatMap fun iCol =>
    let pY := 16 * iRow + if iRow ≤ 3 then 0 else 128 - 64
    let pOutput := x + iRow * (iPitch * 2)
    src.pixel (pOutput + iCol) (pY + iCol) (8 * iRow + iCol) ++
      src.pixel (pOutput + iPitch + iCol) (pY + iCol + 8) (8 * iRow + iCol)

/-- The pixels of `JPEGPutMCU21`. Of the right block `pY[126]` is read behind two increments, and
    `pCb[3]` and `pCr[3]` behind one. -/
def jpegPutMCU21 (ucPixelType : PixelType) (sMCUs : Nat → Int16) (x iPitch : Nat) :
    List (Nat × UInt16) :=
  let src : McuSource := ⟨sMCUs, 2 * 64, 3 * 64, ucPixelType⟩
  (List.range 8).flatMap fun iRow => (List.range 4).flatMap fun iCol =>
    let pY := 8 * iRow + 2 * iCol
    let pCb := 8 * iRow + iCol
    let pOutput := x + iRow * iPitch
    src.pixel2 (pOutput + iCol * 2) pY pCb ++
      src.pixel2 (pOutput + 8 + iCol * 2) (pY + 2 + 126) (pCb + 1 + 3)

/-- How many columns of pixel pairs `JPEGPutMCU22` converts in the left and in the right blocks, and
    whether the last pair is complete. The columns behind the width are left out if the group of
    MCUs begins at the left edge; `x` is counted from the start of the group. -/
def mcu22Columns (iWidth x : Nat) : (Nat × Bool) × (Nat × Bool) :=
  -- the MCU may reach over the right edge
  if x + 15 ≥ iWidth then
    let iCol := ((iWidth &&& 15) + 1) >>> 1
    if iCol ≥ 4 then
      let iXCount2 := iCol - 4
      ((4, true), (iXCount2, ¬ (iWidth &&& 1 ≠ 0 ∧ iXCount2 * 2 + 8 + x * 16 > iWidth)))
    else
      ((iCol, ¬ (iWidth &&& 1 ≠ 0 ∧ iCol * 2 + x * 16 > iWidth)), (0, true))
  else ((4, true), (4, true))

/-- Two rows of two pixels with the same chroma values; only the first pixel of each row if the
    second one would go off the right edge. -/
def McuSource.quad (src : McuSource) (bUseOdd : Bool) (iXCount iCol pOutput iPitch y c : Nat) :
    List (Nat × UInt16) :=
  if bUseOdd ∨ iCol + 1 ≠ iXCount then
    src.pixel2 (pOutput + 2 * iCol) y c ++ src.pixel2 (pOutput + iPitch + 2 * iCol) (y + 8) c
  else src.pixel (pOutput + 2 * iCol) y c ++ src.pixel (pOutput + iPitch + 2 * iCol) (y + 8) c

/-- The pixels of `JPEGPutMCU22`. -/
def jpegPutMCU22 (ucPixelType : PixelType) (sMCUs : Nat → Int16) (iWidth x iPitch : Nat) :
    List (Nat × UInt16) :=
  let src : McuSource := ⟨sMCUs, 4 * 64, 5 * 64, ucPixelType⟩
  let ((iXCount1, bUseOdd1), (iXCount2, bUseOdd2)) := mcu22Columns iWidth x
  (List.range 4).flatMap fun iRow => (List.range iXCount1).flatMap fun iCol =>
    let pOutput := x + iRow * (iPitch * 2)
    let y := 16 * iRow + iCol * 2
    let c := 8 * iRow + iCol
    -- top left, top right, bottom left and bottom right block
    src.quad bUseOdd1 iXCount1 iCol pOutput iPitch y c ++
      -- the right blocks may be narrower than the left ones
      (if iCol < iXCount2 then
        src.quad bUseOdd2 iXCount2 iCol (pOutput + 8) iPitch (y + 64 * 2) (c + 4) else []) ++
      src.quad bUseOdd1 iXCount1 iCol (pOutput + iPitch * 8) iPitch (y + 64 * 4) (c + 32) ++
      if iCol < iXCount2 then
        src.quad bUseOdd2 iXCount2 iCol (pOutput + iPitch * 8 + 8) iPitch (y + 64 * 6) (c + 36)
      else []

namespace JpegImage

variable (p : JpegImage)

/-- The pixels of an MCU, by the subsampling. Nothing is put for the value 1. -/
def putMCU (sMCUs : Nat → Int16) (x iPitch : Nat) : List (Nat × UInt16) :=
  match p.ucSubSample with
  | 0x00 => jpegPutMCUGray p.ucPixelType sMCUs x iPitch
  | 0x11 => jpegPutMCU11 p.ucPixelType sMCUs x iPitch
  | 0x12 => jpegPutMCU12 p.ucPixelType sMCUs x iPitch
  | 0x21 => jpegPutMCU21 p.ucPixelType sMCUs x iPitch
  | 0x22 => jpegPutMCU22 p.ucPixelType sMCUs p.iWidth x iPitch
  | _ => []

end JpegImage

/-! ## The picture -/

/-- A draw block with its pixels. -/
structure JpegTile where
  draw : JpegDraw
  pPixels : List UInt16
  deriving DecidableEq, Repr

/-- The state of `DecodeJPEG`. -/
structure PictureState where
  draw : DrawState
  usPixels : Nat → UInt16
  scan : ScanState

namespace JpegImage

variable (p : JpegImage) (q : ScanInfo) (g : McuGrid) (alloc : Nat → Nat → Bool)

/-- One MCU: its blocks are decoded, its pixels are put into `usPixels`, and a complete group is
    copied into a draw block. Then the restart interval and the data buffer are looked after. -/
def pictureStep (y x : Nat) (s : PictureState) : PictureState × List JpegTile :=
  let (scan, iErr) := q.decodeBlocks (mcuBlocks q.ucSubSample q.ucNumComponents) s.scan
  let usPixels := Mem.writeAll s.usPixels
    (p.putMCU scan.mcu.sMCUs s.draw.xoff.toNat s.draw.iPitch.toNat)
  -- the pixels of an MCU with an error are put, too
  let (draw, draws) := p.mcuStep g ⟨fun _ _ => iErr, alloc⟩ y x s.draw
  (⟨draw, usPixels, (q.restart scan).feed⟩,
    draws.map fun d => ⟨d, Mem.load usPixels 0 (d.iWidth * d.iHeight).toNat⟩)

/-- The loop over the columns, from column `x` on for `n` columns. -/
def pictureRow (y : Nat) : Nat → Nat → PictureState → PictureState × List JpegTile
  | 0, _, s => (s, [])
  | n + 1, x, s =>
    if s.draw.iErr then (s, [])
    else
      let (s, tiles) := p.pictureStep q g alloc y x s
      let (s, rest) := pictureRow y n (x + 1) s
      (s, tiles ++ rest)

/-- The loop over the rows, from row `y` on for `n` rows. -/
def pictureRows : Nat → Nat → PictureState → List JpegTile
  | 0, _, _ => []
  | n + 1, y, s =>
    -- both loops are left at the first error
    if s.draw.iErr then []
    else
      let draw :=
        { s.draw with jdX := p.iXOffset, xoff := 0, iPitch := p.mcuCount g * g.mcuCX }
      let (s, tiles) := p.pictureRow q g alloc y g.cx 0 { s with draw }
      tiles ++ pictureRows n (y + 1)
        { s with draw := { s.draw with jdY := s.draw.jdY + g.mcuCY } }

/-- The draw blocks of `DecodeJPEG`, with their pixels. -/
def decodePicture (usPixels : Nat → UInt16) (scan : ScanState) : Option (List JpegTile) :=
  p.mcuGrid.map fun g =>
    p.pictureRows q g alloc g.cy 0 ⟨⟨0, p.iYOffset, g.mcuCY, 0, 0, false⟩, usPixels, scan⟩

end JpegImage

end Ivy.Native
