import Ivy.ForStd.Memory

/-!
# The frame reader of the MJPEG codec

`MjpegCodec::read_frame` cuts a byte stream into JPEG frames. It looks at the
stream through the 1024-byte window `m_read_buf`: it searches the window for the
header `FF D8`, refilling the whole window while there is none, and then copies
bytes into a heap block until it meets the trailer `FF D9`.

The input (an Arduino `File`) is the list of the bytes that were not read yet;
`readBytes` takes the next `min n remaining` of them. Both scans test the byte
*after* the one they stand on, and the first copy takes three bytes, so the code
reads up to two cells behind the window. `readBuf` is therefore a memory: the
cells below `readBufferSize` are the array, the ones above it are the members
that follow it in the object (`m_decode_task_param` comes first).
-/

namespace Ivy.Native

open Ivy.Mem

/-- `READ_BUFFER_SIZE` -/
def readBufferSize : Nat := 1024

/-- `MJPEG_DECODER_BUF_SIZE` -/
def mjpegDecoderBufSize : Nat := 320 * 240 * 2 / 8

/-- The input side of `MjpegCodec`. `m_buf_read` is signed: a failed header
    search leaves it negative. -/
structure MjpegCodec where
  readBuf : Nat → UInt8
  bufRead : Int
  readBufOffset : Nat
  inputIndex : UInt32

/-- A new codec: the counters and the array are zero, the cells behind the array
    hold `behind`. -/
def MjpegCodec.fresh (behind : Nat → UInt8) : MjpegCodec where
  readBuf := fun j => if j < readBufferSize then 0 else behind (j - readBufferSize)
  bufRead := 0
  readBufOffset := 0
  inputIndex := 0

/-- `MjpegCodec::reset_input_status`: the window itself is not cleared. -/
def MjpegCodec.resetInputStatus (c : MjpegCodec) : MjpegCodec :=
  { c with bufRead := 0, readBufOffset := 0, inputIndex := 0 }

/-- `m_read_buf[i] == 0xFF && m_read_buf[i + 1] == second` -/
def markerAt (buf : Nat → UInt8) (second : UInt8) (i : Nat) : Bool :=
  buf i == 0xFF && buf (i + 1) == second

/-- The inner loop of both scans: the first offset `i` with `start ≤ i < stop` at
    which a marker lies, counted from the base pointer `p`. -/
def markerScan (buf : Nat → UInt8) (p : Nat) (second : UInt8) (start stop : Nat) : Option Nat :=
  (List.range' start (stop - start)).find? fun i => markerAt buf second (p + i)

/-! ## Header search -/

/-- What the header search leaves behind: `found_FFD8`, `i`, the window and the input. -/
structure HeaderScan where
  found : Bool
  i : Nat
  buf : Nat → UInt8
  bufRead : Int
  input : List UInt8

/-- The outer loop of the header search. Every window without a header is thrown
    away and the window is refilled from its start. -/
def headerLoop : Nat → (Nat → UInt8) → Int → Nat → List UInt8 → HeaderScan
  | 0, buf, bufRead, i, input => ⟨false, i, buf, bufRead, input⟩
  | fuel + 1, buf, bufRead, i, input =>
    if 0 < bufRead then
      match markerScan buf 0 0xD8 0 bufRead.toNat with
      | some j => ⟨true, j, buf, bufRead, input⟩
      | none =>
        -- `i` is left at the end of the inner loop, and the next search starts at zero
        let chunk := input.take readBufferSize
        headerLoop fuel (store buf 0 chunk) chunk.length bufRead.toNat
          (input.drop readBufferSize)
    else ⟨false, i, buf, bufRead, input⟩

/-! ## Trailer search -/

/-- The state of the copy loop. `data` is the part of the heap block that is
    written, so `m_read_buf_offset` is its length; `p` is the base pointer `_p`. -/
structure TrailerScan where
  buf : Nat → UInt8
  p : Nat
  bufRead : Int
  i : Nat
  data : List UInt8
  dataSize : Nat
  found : Bool
  inputIndex : UInt32
  input : List UInt8

/-- Look for the trailer in the current window: `found_FFD9` and the number of
    bytes to copy. The first test is the path for a trailer split over two reads. -/
def TrailerScan.search (s : TrailerScan) : Bool × Nat :=
  if s.data.getLast? = some 0xFF ∧ s.buf s.p = 0xD9 then (true, s.i)
  else
    -- the marker is copied with the frame
    match markerScan s.buf s.p 0xD9 s.i s.bufRead.toNat with
    | some j => (true, j + 2)
    -- a first window with less than three bytes behind the header: `i` is already behind its end
    | none => (false, max s.i s.bufRead.toNat)

/-- Copy `i` bytes out of the window, move what is left of it to its start and
    refill it. -/
def TrailerScan.advance (s : TrailerScan) (found : Bool) (i : Nat) : TrailerScan :=
  let data := s.data ++ load s.buf s.p i
  let dataSize := max s.dataSize (s.data.length + i)
  -- negative if more was copied than the window held
  let o : Int := s.bufRead - i
  if 0 < o then
    let chunk := s.input.take (readBufferSize - o.toNat)
    { buf := store (store s.buf 0 (load s.buf (s.p + i) o.toNat)) o.toNat chunk
      p := 0, bufRead := chunk.length + o, i := 0, data, dataSize, found
      inputIndex := s.inputIndex + UInt32.ofNat chunk.length
      input := s.input.drop (readBufferSize - o.toNat) }
  else
    -- nothing is left of the window
    let chunk := s.input.take readBufferSize
    { buf := store s.buf 0 chunk
      p := 0, bufRead := chunk.length, i := 0, data, dataSize, found
      inputIndex := s.inputIndex + UInt32.ofNat chunk.length
      input := s.input.drop readBufferSize }

/-- One round of the copy loop. `realloc` is the outcome of `heap_caps_realloc_prefer`,
    which is only asked when the block is too small. -/
def TrailerScan.step (realloc : Bool) (s : TrailerScan) : Except TrailerScan TrailerScan :=
  let (found, i) := s.search
  -- the block is freed, and nothing of the round is undone
  if s.data.length + i > s.dataSize ∧ realloc = false then .error { s with found, i }
  else .ok (s.advance found i)

/-- The copy loop; round `k` asks for allocation number `k`. -/
def trailerLoop (alloc : Nat → Bool) : Nat → Nat → TrailerScan → Except TrailerScan TrailerScan
  | 0, _, s => .ok s
  | fuel + 1, k, s =>
    if 0 < s.bufRead ∧ s.found = false then
      match s.step (alloc k) with
      | .error e => .error e
      | .ok s' => trailerLoop alloc fuel (k + 1) s'
    else .ok s

/-! ## read_frame -/

/-- The codec fields at the end of the copy loop. -/
def TrailerScan.toCodec (s : TrailerScan) : MjpegCodec where
  readBuf := s.buf
  bufRead := s.bufRead
  readBufOffset := s.data.length
  inputIndex := s.inputIndex

/-- The first read of a stream, made when `m_input_index` is zero. -/
def MjpegCodec.firstRead (c : MjpegCodec) (input : List UInt8) : MjpegCodec × List UInt8 :=
  if c.inputIndex = 0 then
    let chunk := input.take readBufferSize
    ({ c with readBuf := store c.readBuf 0 chunk, bufRead := chunk.length
              inputIndex := c.inputIndex + UInt32.ofNat chunk.length },
      input.drop readBufferSize)
  else (c, input)

/-- The header search of a call, with a budget no input exhausts. -/
def MjpegCodec.searchHeader (c : MjpegCodec) (input : List UInt8) : HeaderScan :=
  headerLoop (input.length + 2) c.readBuf c.bufRead 0 input

/-- The copy loop is entered at the header, `i` bytes into the window. -/
def MjpegCodec.copyStart (c : MjpegCodec) (h : HeaderScan) : TrailerScan where
  buf := h.buf
  p := h.i
  bufRead := h.bufRead - h.i
  i := 3
  data := []
  dataSize := mjpegDecoderBufSize
  found := false
  inputIndex := c.inputIndex
  input := h.input

/-- The copy loop of a call, with a budget no input exhausts. -/
def MjpegCodec.searchTrailer (c : MjpegCodec) (alloc : Nat → Bool) (h : HeaderScan) :
    Except TrailerScan TrailerScan :=
  trailerLoop alloc (h.input.length + 2) 1 (c.copyStart h)

/-- `MjpegCodec::read_frame`: the block `data[0..m_read_buf_offset)` or `nullptr`,
    the codec after the call and the rest of the input. `alloc 0` is the outcome of
    the first allocation, `alloc k` the one of the copy loop's round `k`. -/
def MjpegCodec.readFrame (alloc : Nat → Bool) (c : MjpegCodec) (input : List UInt8) :
    Option (List UInt8) × MjpegCodec × List UInt8 :=
  -- the first allocation is made before anything is read
  if alloc 0 = false then (none, c, input)
  else
    let (c, input) := c.firstRead input
    let h := c.searchHeader input
    -- `m_buf_read -= i`, tested instead of `found_FFD8`
    if 0 < h.bufRead - h.i then
      match c.searchTrailer alloc h with
      | .error s => (none, s.toCodec, s.input)
      | .ok s =>
        -- a block without a trailer is freed
        if s.found ∧ s.data.length ≤ s.dataSize then (some s.data, s.toCodec, s.input)
        else (none, s.toCodec, s.input)
    else
      (none, { c with readBuf := h.buf, bufRead := h.bufRead - h.i, readBufOffset := 0 }, h.input)

/-- The bytes no frame has taken yet: those in the window and those not read. -/
def MjpegCodec.pending (c : MjpegCodec) (input : List UInt8) : Nat :=
  c.bufRead.toNat + input.length

/-- The blocks of at most `n` calls, up to the first `nullptr`. -/
def MjpegCodec.readFrames (alloc : Nat → Bool) : Nat → MjpegCodec → List UInt8 → List (List UInt8)
  | 0, _, _ => []
  | n + 1, c, input =>
    match c.readFrame alloc input with
    | (none, _, _) => []
    | (some data, c', input') => data :: readFrames alloc n c' input'

/-- The blocks that repeated `read_frame` calls return before the first `nullptr`,
    when every allocation succeeds. Each block takes at least one byte, so one more
    call than there are bytes reaches the `nullptr`. -/
def MjpegCodec.frames (c : MjpegCodec) (input : List UInt8) : List (List UInt8) :=
  readFrames (fun _ => true) (c.pending input + 1) c input

end Ivy.Native
