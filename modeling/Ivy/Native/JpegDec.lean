/-!
# The draw blocks of the JPEG decoder

`DecodeJPEG` decodes a picture MCU by MCU, row by row, and hands it on in blocks of several MCUs of
one row. This is the part of it that computes the blocks, on the path with the draw queue. The
pixels are left out; whether an MCU can be decoded and whether there is memory for a block are
parameters.
-/

namespace Ivy.Native

/-- `MAX_BUFFERED_PIXELS` -/
def maxBufferedPixels : Nat := 2560

/-- `MAX_MCU` -/
def maxMcu : Nat := 5

/-- `MCU_SIZE` -/
def mcuSize : Nat := 256

/-- The scale options of `JPEG_decode`. -/
inductive JpegScale
  | full
  | half
  | quarter
  | eighth
  deriving DecidableEq, Repr

/-- `iScaleShift` -/
def JpegScale.shift : JpegScale → Nat
  | full => 0
  | half => 1
  | quarter => 2
  | eighth => 3

/-- The values of `ucPixelType`. -/
inductive PixelType
  | rgb565LittleEndian
  | rgb565BigEndian
  | eightBitGrayscale
  | fourBitDithered
  | twoBitDithered
  | oneBitDithered
  deriving DecidableEq, Repr

/-- `ucPixelType > EIGHT_BIT_GRAYSCALE` -/
def PixelType.dithered : PixelType → Bool
  | rgb565LittleEndian | rgb565BigEndian | eightBitGrayscale => false
  | fourBitDithered | twoBitDithered | oneBitDithered => true

/-- The fields of `JPEGIMAGE` that the blocks depend on. -/
structure JpegImage where
  iWidth : Nat
  iHeight : Nat
  ucSubSample : UInt8
  ucPixelType : PixelType
  iMaxMCUs : Int
  iXOffset : Int
  iYOffset : Int
  scale : JpegScale
  deriving DecidableEq, Repr

/-- `JPEG_setMaxOutputSize` -/
def JpegImage.setMaxOutputSize (p : JpegImage) (iMaxMCUs : Int) : JpegImage :=
  { p with iMaxMCUs := if iMaxMCUs < 1 then 1 else iMaxMCUs }

/-- The number of MCU columns and rows, and the size of an MCU. -/
structure McuGrid where
  cx : Nat
  cy : Nat
  mcuCX : Nat
  mcuCY : Nat
  deriving DecidableEq, Repr

/-- The `switch` over the subsampling. In the default case the MCUs have no size, and the division
    that follows fails. -/
def JpegImage.mcuGrid (p : JpegImage) : Option McuGrid :=
  let s := p.scale.shift
  match p.ucSubSample with
  | 0x00 | 0x01 | 0x11 => some ⟨(p.iWidth + 7) >>> 3, (p.iHeight + 7) >>> 3, 8 >>> s, 8 >>> s⟩
  | 0x12 => some ⟨(p.iWidth + 7) >>> 3, (p.iHeight + 15) >>> 4, 8 >>> s, 16 >>> s⟩
  | 0x21 => some ⟨(p.iWidth + 15) >>> 4, (p.iHeight + 7) >>> 3, 16 >>> s, 8 >>> s⟩
  | 0x22 => some ⟨(p.iWidth + 15) >>> 4, (p.iHeight + 15) >>> 4, 16 >>> s, 16 >>> s⟩
  | _ => none

/-- `iMCUCount`: how many MCUs make a block. -/
def JpegImage.mcuCount (p : JpegImage) (g : McuGrid) : Int :=
  let n : Int := (maxBufferedPixels / (g.mcuCX * g.mcuCY) : Nat)
  let n := if p.ucPixelType = .eightBitGrayscale then n * 2 else n
  -- no more than a row of the picture,
  let n := if n > g.cx then (g.cx : Int) else n
  -- and no more than the user asked for
  let n := if n > p.iMaxMCUs then p.iMaxMCUs else n
  -- the dithered types need a whole row, whatever its width
  if p.ucPixelType.dithered then g.cx else n

/-- The fields of a `JPEGDRAW` that are put into the queue. -/
structure JpegDraw where
  x : Int
  y : Int
  iWidth : Int
  iHeight : Int
  deriving DecidableEq, Repr

/-- The variables of the loops: `jd.x`, `jd.y`, `jd.iHeight`, `xoff`, `iPitch`, and `iErr`. -/
structure DrawState where
  jdX : Int
  jdY : Int
  jdHeight : Int
  xoff : Int
  iPitch : Int
  iErr : Bool
  deriving DecidableEq, Repr

/-- Which MCUs (row and column) cannot be decoded, and behind which there is memory for a block. -/
structure DecodeEnv where
  mcuErr : Nat → Nat → Bool
  alloc : Nat → Nat → Bool

namespace JpegImage

variable (p : JpegImage) (g : McuGrid) (env : DecodeEnv)

/-- Trim the last row. -/
def trimmed (s : DrawState) : Int :=
  -- the offset was added to `jd.y` before
  if s.jdY - p.iYOffset + g.mcuCY > (p.iHeight >>> p.scale.shift : Nat) then
    (p.iHeight >>> p.scale.shift : Nat) - (s.jdY - p.iYOffset)
  else s.jdHeight

/-- One MCU, and the block that it completes. -/
def mcuStep (y x : Nat) (s : DrawState) : DrawState × List JpegDraw :=
  let s := { s with iErr := env.mcuErr y x, xoff := s.xoff + g.mcuCX }
  -- the group is complete, or the row
  if s.xoff = s.iPitch ∨ x + 1 = g.cx then
    let jdHeight := p.trimmed g s
    let draw : JpegDraw := ⟨s.jdX, s.jdY, s.iPitch, jdHeight⟩
    let left : Int := g.cx - 1 - x
    ({ s with
        xoff := 0
        jdHeight
        jdX := s.jdX + s.iPitch
        -- the last group of a row may be shorter
        iPitch := if left < p.mcuCount g then left * g.mcuCX else s.iPitch },
      -- without memory the block is dropped, and only a warning logged
      if env.alloc y x then [draw] else [])
  else (s, [])

/-- The loop over the columns, from column `x` on for `n` columns. -/
def rowLoop (y : Nat) : Nat → Nat → DrawState → DrawState × List JpegDraw
  | 0, _, s => (s, [])
  | n + 1, x, s =>
    if s.iErr then (s, [])
    else
      let (s, draws) := p.mcuStep g env y x s
      let (s, rest) := rowLoop y n (x + 1) s
      (s, draws ++ rest)

/-- The loop over the rows, from row `y` on for `n` rows. -/
def rowsLoop : Nat → Nat → DrawState → List JpegDraw
  | 0, _, _ => []
  | n + 1, y, s =>
    if s.iErr then []
    else
      let s := { s with jdX := p.iXOffset, xoff := 0, iPitch := p.mcuCount g * g.mcuCX }
      let (s, draws) := p.rowLoop g env y g.cx 0 s
      draws ++ rowsLoop n (y + 1) { s with jdY := s.jdY + g.mcuCY }

/-- The blocks that `DecodeJPEG` puts into the draw queue; `none` if the subsampling is not
    supported. -/
def decodeJPEG : Option (List JpegDraw) :=
  p.mcuGrid.map fun g => p.rowsLoop g env g.cy 0 ⟨0, p.iYOffset, g.mcuCY, 0, 0, false⟩

/-- `JPEG_decode` -/
def decode (x y : Int) (scale : JpegScale) : Option (List JpegDraw) :=
  { p with iXOffset := x, iYOffset := y, scale }.decodeJPEG env

end JpegImage

end Ivy.Native
