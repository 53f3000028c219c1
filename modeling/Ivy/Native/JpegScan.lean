import Ivy.Native.JpegDec
import Ivy.Native.JpegIdct

/-!
# The scan of the JPEG decoder

The part of `DecodeJPEG` that decodes the data MCU by MCU: an MCU is some blocks of luminance and,
in colour, one block of each chroma. Behind an MCU the decoder may have to start again at a restart
interval, and the data buffer may have to be filled.
-/

namespace Ivy.Native

/-- The fields of `JPEGCOMPINFO` that are used for decoding. -/
structure JpegCompInfo where
  quantTblNo : UInt8
  dcTblNo : UInt8
  acTblNo : UInt8
  deriving DecidableEq, Repr

/-- The fields of `JPEGIMAGE` that do not change in the scan. -/
structure ScanInfo where
  ucHuffDC : Nat → UInt8
  usHuffAC : Nat → UInt16
  b11Bit : Bool
  sQuantTable : Nat → Int16
  jpci : Nat → JpegCompInfo
  ucSubSample : UInt8
  ucNumComponents : UInt8
  iResInterval : Nat
  scale : JpegScale

/-- The state of the scan; `iDCPred` is numbered by the component. -/
structure ScanState where
  mcu : McuState
  iDCPred : Nat → Int32
  iResCount : Int

/-- `iCr` and `iCb` -/
def chromaBlocks : UInt8 → Nat × Nat
  | 0x00 | 0x01 | 0x11 => (64, 128)
  | 0x12 | 0x21 => (128, 192)
  | 0x22 => (256, 320)
  | _ => (0, 0)

/-- The blocks of an MCU, in their order: the place in `sMCUs` and the component. -/
def mcuBlocks (ucSubSample ucNumComponents : UInt8) : List (Nat × Nat) :=
  let lum :=
    if ucSubSample > 0x11 then
      if ucSubSample = 0x22 then [(0, 0), (64, 0), (128, 0), (192, 0)] else [(0, 0), (64, 0)]
    else [(0, 0)]
  -- color, and not CMYK
  if ucSubSample ≠ 0 ∧ ucNumComponents = 3 then
    lum ++ [((chromaBlocks ucSubSample).1, 1), ((chromaBlocks ucSubSample).2, 2)]
  else lum

/-- See if we need to feed it more data. -/
def ScanState.feed (s : ScanState) : ScanState :=
  if s.mcu.vlc.iVLCOff ≥ fileHighwater then
    { s with mcu := { s.mcu with vlc := s.mcu.vlc.jpegGetMoreData } }
  else s

namespace ScanInfo

variable (p : ScanInfo)

/-- What `JPEGDecodeMCU` reads for a component. -/
def mcuTables (comp : Nat) : McuTables where
  ucHuffDC := p.ucHuffDC
  usHuffAC := p.usHuffAC
  ucDCTable := (p.jpci comp).dcTblNo
  ucACTable := (p.jpci comp).acTblNo
  b11Bit := p.b11Bit
  reduced := p.scale = .quarter ∨ p.scale = .eighth

/-- The number of words to fill in a block without AC components. -/
def iMaxFill : Nat :=
  match p.scale with
  | .full | .half => 16
  | .quarter | .eighth => 1

/-- The pixels of a block from its coefficients. -/
def reconstruct (iMCU comp : Nat) (ucMaxACCol ucMaxACRow : UInt8) (iDCPred : Int32)
    (sMCUs : Nat → Int16) : Nat → Int16 :=
  let iQuantTable := (p.jpci comp).quantTblNo.toNat
  -- no AC components, save some time
  if ucMaxACCol = 0 ∨ p.scale = .eighth then
    fillBlock p.iMaxFill iMCU iDCPred (p.sQuantTable (iQuantTable * 64)).toInt32 sMCUs
  else
    jpegIDCT (p.scale = .quarter) p.sQuantTable iQuantTable iMCU
      (ucMaxACCol.toUInt16 ||| (ucMaxACRow.toUInt16 <<< 8)) sMCUs

/-- One block; the result is whether the data was invalid. -/
def decodeBlock (block : Nat × Nat) (s : ScanState) : ScanState × Bool :=
  let (iMCU, comp) := block
  let (mcu, iDCPred, err) := jpegDecodeMCU (p.mcuTables comp) iMCU s.mcu (s.iDCPred comp)
  let sMCUs := p.reconstruct iMCU comp mcu.ucMaxACCol mcu.ucMaxACRow iDCPred mcu.sMCUs
  ({ s with
      mcu := { mcu with sMCUs }
      iDCPred := fun c => if c = comp then iDCPred else s.iDCPred c }, err ≠ 0)

/-- The blocks of one MCU. All of them are decoded, also behind invalid data. -/
def decodeBlocks : List (Nat × Nat) → ScanState → ScanState × Bool
  | [], s => (s, false)
  | block :: blocks, s =>
    let (s, err) := p.decodeBlock block s
    let (s, err') := decodeBlocks blocks s
    (s, err || err')

/-- A new restart interval starts on a byte boundary, with the predictors reset. -/
def restart (s : ScanState) : ScanState :=
  if p.iResInterval ≠ 0 then
    -- the counter is taken down for every MCU
    if s.iResCount - 1 = 0 then
      let off := s.mcu.vlc.bb.ulBitOff
      -- align to the next byte
      let off := if off &&& 7 ≠ 0 then off + (8 - (off &&& 7)) else off
      { mcu := { s.mcu with vlc := { s.mcu.vlc with bb := { s.mcu.vlc.bb with ulBitOff := off } } }
        iDCPred := fun _ => 0
        iResCount := p.iResInterval }
    else { s with iResCount := s.iResCount - 1 }
  else s

/-- `n` MCUs from the state `s` on: the blocks of each of them, as they are handed on to be put into
    the picture, and `iErr`. The loop ends behind an MCU with invalid data. -/
def scan : Nat → ScanState → List (Nat → Int16) × Bool
  | 0, _ => ([], false)
  | n + 1, s =>
    let (s, err) := p.decodeBlocks (mcuBlocks p.ucSubSample p.ucNumComponents) s
    -- the MCU itself is still put into the picture
    if err then ([s.mcu.sMCUs], true)
    else
      let (rest, err) := scan n (p.restart s).feed
      (s.mcu.sMCUs :: rest, err)

/-- The beginning of the scan. The first four bytes are loaded. -/
def start (v : Vlc) (sMCUs : Nat → Int16) (ucMaxACCol ucMaxACRow : UInt8) : ScanState where
  mcu :=
    { vlc := { v with bb := ⟨0, motoLong v.ucFileBuf 0, 0⟩ }
      sMCUs, ucMaxACCol, ucMaxACRow }
  iDCPred := fun _ => 0
  iResCount := p.iResInterval

end ScanInfo

end Ivy.Native
