import Ivy.Native.MjpegCodec
import Mathlib.Algebra.Group.Nat.Defs
import Mathlib.Algebra.Group.Int.Defs

/-!
# The accesses of read_frame to its window

Every cell of `m_read_buf` that `MjpegCodec::read_frame` inspects or copies, in the order of the
code. The state in which an access is made is that of the model of `read_frame`; with an access
goes the window at that moment, the cells from `base` on that hold `m_buf_read` bytes.

The second part lists the copies into the frame and the refills with the sizes that the code
computes for them, in its 32 bit integers.
-/

namespace Ivy.Native

open Ivy.Mem

/-- An access to the cell `cell`, while the cells from `base` on hold `window` and the stream
    still has `rest`. -/
structure BufAccess where
  cell : Nat
  base : Nat
  window : List UInt8
  rest : List UInt8
  deriving DecidableEq, Repr

/-- Accesses to several cells of one window. -/
def accesses (base : Nat) (window rest : List UInt8) (cells : List Nat) : List BufAccess :=
  cells.map (⟨·, base, window, rest⟩)

/-- The cells of one marker test: the second one only if the first is `FF`. -/
def markerCells (buf : Nat → UInt8) (i : Nat) : List Nat :=
  if buf i == 0xFF then [i, i + 1] else [i]

/-- The cells of the inner loop of both scans, from the offset `i` on and for at most `n`
    offsets. -/
def scanCells (buf : Nat → UInt8) (p : Nat) (second : UInt8) : Nat → Nat → List Nat
  | _, 0 => []
  | i, n + 1 =>
    markerCells buf (p + i) ++
      -- a marker ends the loop
      if markerAt buf second (p + i) then [] else scanCells buf p second (i + 1) n

/-- The accesses of the header search. -/
def headerAccesses : Nat → (Nat → UInt8) → Int → List UInt8 → List BufAccess
  | 0, _, _, _ => []
  | fuel + 1, buf, bufRead, input =>
    if 0 < bufRead then
      accesses 0 (load buf 0 bufRead.toNat) input (scanCells buf 0 0xD8 0 bufRead.toNat) ++
        match markerScan buf 0 0xD8 0 bufRead.toNat with
        | some _ => []
        | none =>
          let chunk := input.take readBufferSize
          headerAccesses fuel (store buf 0 chunk) chunk.length (input.drop readBufferSize)
    else []

namespace TrailerScan

variable (s : TrailerScan)

/-- The cells of a search for the trailer. `_p[0]` is only inspected behind an `FF`. -/
def searchCells : List Nat :=
  if s.data.getLast? = some 0xFF then
    -- if s.buf s.p = 0xD9 then [] :: a trailer that was split over two reads needs no search
    s.p :: if s.buf s.p = 0xD9 then []
      else scanCells s.buf s.p 0xD9 s.i (s.bufRead.toNat - s.i)
  else scanCells s.buf s.p 0xD9 s.i (s.bufRead.toNat - s.i)

/-- The cells of the two `memcpy` of a round that copies `i` bytes: into the frame, and what is
    left to the start of the window. -/
def copyCells (i : Nat) : List Nat :=
  List.range' s.p i ++ List.range' (s.p + i) (s.bufRead - i).toNat

/-- The accesses of a round of the copy loop; without memory nothing is copied. -/
def stepAccesses (realloc : Bool) : List BufAccess :=
  accesses s.p (load s.buf s.p s.bufRead.toNat) s.input <|
    s.searchCells ++
      -- the call gives up before the `memcpy`
      if s.data.length + s.search.2 > s.dataSize ∧ realloc = false then []
      else s.copyCells s.search.2

end TrailerScan

/-- The accesses of the copy loop. -/
def trailerAccesses (alloc : Nat → Bool) : Nat → Nat → TrailerScan → List BufAccess
  | 0, _, _ => []
  | fuel + 1, k, s =>
    if 0 < s.bufRead ∧ s.found = false then
      s.stepAccesses (alloc k) ++
        match s.step (alloc k) with
        | .error _ => []
        | .ok s' => trailerAccesses alloc fuel (k + 1) s'
    else []

/-- The accesses of a call of `MjpegCodec::read_frame`. -/
def MjpegCodec.readFrameAccesses (alloc : Nat → Bool) (c : MjpegCodec) (input : List UInt8) :
    List BufAccess :=
  if alloc 0 = false then []
  else
    let (c, input) := c.firstRead input
    let h := c.searchHeader input
    headerAccesses (input.length + 2) c.readBuf c.bufRead input ++
      if 0 < h.bufRead - h.i then
        trailerAccesses alloc (h.input.length + 2) 1 (c.copyStart h)
      else []

/-! ## Copies and refills -/

/-- The value of an `int32_t` after an operation. -/
def wrapInt32 (x : Int) : Int := (x + 2 ^ 31) % 2 ^ 32 - 2 ^ 31

/-- An `int32_t` that is converted to `uint32_t`. -/
def toUint32 (x : Int) : Nat := (x % 2 ^ 32).toNat

inductive FrameEvent
  /-- `memcpy(data + m_read_buf_offset, _p, i)`, and `data_size` at that moment -/
  | copy (offset i : Int) (dataSize : Nat)
  /-- `readBytes(m_read_buf + o, n)` -/
  | refill (o n : Int)
  /-- `m_read_buf_offset` was found to be larger than `data_size`. -/
  | tooLarge (offset : Int) (dataSize : Nat)
  deriving DecidableEq, Repr

/-- The refills of the header search. -/
def headerEvents : Nat → (Nat → UInt8) → Int → List UInt8 → List FrameEvent
  | 0, _, _, _ => []
  | fuel + 1, buf, bufRead, input =>
    if 0 < bufRead then
      match markerScan buf 0 0xD8 0 bufRead.toNat with
      | some _ => []
      | none =>
        let chunk := input.take readBufferSize
        .refill 0 readBufferSize ::
          headerEvents fuel (store buf 0 chunk) chunk.length (input.drop readBufferSize)
    else []

/-- `data_size` behind the test that reallocates the block. -/
def grownSize (offset i : Int) (dataSize : Nat) : Nat :=
  -- the sum is an `int32_t`, the size a `uint32_t`
  if toUint32 (wrapInt32 (offset + i)) > dataSize then toUint32 (wrapInt32 (offset + i))
  else dataSize

/-- The copy and the refill of a round that copies `i` bytes. -/
def TrailerScan.stepEvents (s : TrailerScan) (offset : Int) (i dataSize : Nat) :
    List FrameEvent :=
  let o := wrapInt32 (s.bufRead - i)
  [.copy offset i (grownSize offset i dataSize),
    -- what is left of the window stays in front
    if 0 < o then .refill o (readBufferSize - o) else .refill 0 readBufferSize]

/-- The test behind the copy loop. -/
def TrailerScan.sizeTest (s : TrailerScan) (offset : Int) (dataSize : Nat) : List FrameEvent :=
  if s.found ∧ toUint32 offset > dataSize then [.tooLarge offset dataSize] else []

/-- The events of the copy loop, and of the test behind it; `offset` and `dataSize` are
    `m_read_buf_offset` and `data_size`. -/
def trailerEvents (alloc : Nat → Bool) :
    Nat → Nat → TrailerScan → Int → Nat → List FrameEvent
  | 0, _, s, offset, dataSize => s.sizeTest offset dataSize
  | fuel + 1, k, s, offset, dataSize =>
    if 0 < s.bufRead ∧ s.found = false then
      match s.step (alloc k) with
      | .error _ => []
      | .ok s' =>
        s.stepEvents offset s.search.2 dataSize ++
          trailerEvents alloc fuel (k + 1) s' (wrapInt32 (offset + s.search.2))
            (grownSize offset s.search.2 dataSize)
    else s.sizeTest offset dataSize

/-- The events of a call of `MjpegCodec::read_frame`. -/
def MjpegCodec.readFrameEvents (alloc : Nat → Bool) (c : MjpegCodec) (input : List UInt8) :
    List FrameEvent :=
  if alloc 0 = false then []
  else
    -- the first read of the stream
    (if c.inputIndex = 0 then [.refill 0 readBufferSize] else []) ++
      let (c, input) := c.firstRead input
      let h := c.searchHeader input
      headerEvents (input.length + 2) c.readBuf c.bufRead input ++
        if 0 < h.bufRead - h.i then
          trailerEvents alloc (h.input.length + 2) 1 (c.copyStart h) 0 mjpegDecoderBufSize
        else []

end Ivy.Native
