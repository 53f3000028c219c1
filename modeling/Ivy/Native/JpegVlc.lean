import Ivy.ForStd.Memory

/-!
# The data buffer of the JPEG decoder

The compressed data is read from the file into `ucFileBuf`, and stuffed zeros and markers are
removed from it in place. `JPEGGetMoreData` moves the rest of the data down and fills the buffer.
The file lies in RAM.
-/

namespace Ivy.Native

/-- `JPEG_FILE_BUF_SIZE` -/
def jpegFileBufSize : Nat := 2048

/-- `FILE_HIGHWATER` -/
def fileHighwater : Nat := 1536

/-- `JPEGFILE` -/
structure JpegFile where
  iPos : Nat
  iSize : Nat
  pData : Nat → UInt8

/-- `readRAM`: the bytes that are read. -/
def JpegFile.readRAM (f : JpegFile) (iLen : Nat) : List UInt8 × JpegFile :=
  let iBytesRead := if f.iSize - f.iPos < iLen then f.iSize - f.iPos else iLen
  (Mem.load f.pData f.iPos iBytesRead, { f with iPos := f.iPos + iBytesRead })

/-! ## `JPEGFilter` -/

/-- The buffer, and the pointers `s` and `d` into it. -/
structure FilterState where
  buf : Nat → UInt8
  s : Nat
  d : Nat

/-- The loop, which stops just shy of the end. `stop` is one behind the last byte, and each round
    takes at least one byte, so that as many rounds as bytes are enough. -/
def filterLoop (stop : Nat) : Nat → FilterState → FilterState
  | 0, st => st
  | n + 1, st =>
    if st.s + 1 < stop then
      let c := st.buf st.s
      let buf := Mem.store st.buf st.d [c]
      if c = 0xff then
        -- a marker: skip both bytes; a stuffed zero: keep the FF
        let d := if buf (st.s + 1) ≠ 0 then st.d else st.d + 1
        filterLoop stop n ⟨buf, st.s + 2, d⟩
      else filterLoop stop n ⟨buf, st.s + 1, st.d + 1⟩
    else st

/-- The last byte was a FF: check the next one. -/
def filterFirst (buf : Nat → UInt8) (pBuf d : Nat) (bFF : Bool) : FilterState :=
  if bFF then
    if buf pBuf = 0 then ⟨Mem.store buf d [0xff], pBuf + 1, d + 1⟩ else ⟨buf, pBuf + 1, d⟩
  else ⟨buf, pBuf, d⟩

/-- `JPEGFilter` for `iLen` bytes at `pBuf`: the buffer, the filtered length and `bFF`. -/
def jpegFilter (buf : Nat → UInt8) (pBuf d iLen : Nat) (bFF : Bool) :
    (Nat → UInt8) × Nat × Bool :=
  let st := filterLoop (pBuf + iLen) iLen (filterFirst buf pBuf d bFF)
  if st.s + 1 = pBuf + iLen then
    -- need to test the last byte
    let c := st.buf st.s
    if c = 0xff then (st.buf, st.d - d, true)
    -- any other byte is kept
    else (Mem.store st.buf st.d [c], st.d + 1 - d, false)
  else (st.buf, st.d - d, false)

/-! ## `JPEGGetMoreData` -/

/-- `BUFFERED_BITS`; `pBuf` is an offset into `ucFileBuf`. -/
structure BufferedBits where
  pBuf : Nat
  ulBits : UInt32
  ulBitOff : UInt32
  deriving DecidableEq, Repr

/-- The fields of `JPEGIMAGE` for the compressed data. -/
structure Vlc where
  ucFileBuf : Nat → UInt8
  iVLCOff : Nat
  iVLCSize : Nat
  ucFF : Bool
  bb : BufferedBits
  file : JpegFile

namespace Vlc

/-- Move any existing data down. -/
def moveDown (v : Vlc) : Vlc :=
  if v.iVLCOff ≠ 0 then
    { v with
      ucFileBuf :=
        Mem.store v.ucFileBuf 0 (Mem.load v.ucFileBuf v.iVLCOff (v.iVLCSize - v.iVLCOff))
      iVLCSize := v.iVLCSize - v.iVLCOff
      iVLCOff := 0
      bb := { v.bb with pBuf := 0 } }
  else v

/-- Try to read enough to fill the buffer, and filter out the markers. -/
def fill (v : Vlc) : Vlc :=
  if v.file.iPos < v.file.iSize ∧ v.iVLCSize < jpegFileBufSize - 64 then
    -- behind the data that is still to be decoded
    let (data, file) := v.file.readRAM (jpegFileBufSize - v.iVLCSize)
    let buf := Mem.store v.ucFileBuf v.iVLCSize data
    let (buf, n, ucFF) := jpegFilter buf v.iVLCSize v.iVLCSize data.length v.ucFF
    { v with ucFileBuf := buf, iVLCSize := v.iVLCSize + n, ucFF, file }
  else v

/-- `JPEGGetMoreData`. Nothing is read while the buffer is full, or when the decoder is already
    behind the end of the data. -/
def jpegGetMoreData (v : Vlc) : Vlc :=
  if v.iVLCSize - v.iVLCOff ≥ jpegFileBufSize - 64 ∨ v.iVLCSize < v.iVLCOff then v
  else v.moveDown.fill

/-- The end of `JPEGParseInfo`: `iOffset` is the start of the compressed data in the `iBytesRead`
    bytes of the buffer. -/
def startScan (v : Vlc) (iBytesRead iOffset : Nat) : Vlc :=
  let (buf, n, ucFF) := jpegFilter v.ucFileBuf iOffset 0 (iBytesRead - iOffset) v.ucFF
  { v with ucFileBuf := buf, iVLCOff := 0, iVLCSize := n, ucFF }.jpegGetMoreData

end Vlc

end Ivy.Native
