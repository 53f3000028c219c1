import Ivy.Spec.ReadAccess

/-!
# The buffers of read_frame

Whatever the stream and whatever allocations fail, a call of `read_frame` ends, copies into the
frame only as much as the block holds, and refills the window within its 1024 bytes. The offset into
the frame is a 32 bit integer; it cannot wrap, since a frame has at most two bytes more than the
stream has left.

## Key results

- `CopyBounds.advance`: the offset, the size of the block and the window, round by round
- `readFrame_ends`: more rounds than the budget of a loop change nothing
- `readFrame_within_buffers`: every call, in every sequence of calls
-/

namespace Ivy.Spec

open Ivy.Mem Ivy.Native Ivy.Lts

/-- An event within the buffers. -/
def FrameEvent.Safe : FrameEvent → Prop
  | .copy offset i dataSize => 0 ≤ offset ∧ 0 ≤ i ∧ offset + i ≤ dataSize
  | .refill o n => 0 ≤ o ∧ o ≤ readBufferSize ∧ n = readBufferSize - o
  | .tooLarge _ _ => False

/-- A read into the whole buffer. -/
theorem safe_refill_all : FrameEvent.Safe (.refill 0 readBufferSize) := by
  simp [FrameEvent.Safe, readBufferSize_eq]

/-! ## The integers -/

/-- No wrap within the range. -/
theorem wrapInt32_of_range {x : Int} (hlo : -(2 ^ 31) ≤ x) (hhi : x < 2 ^ 31) :
    wrapInt32 x = x := by
  unfold wrapInt32
  omega

/-- An offset that is not negative is itself as unsigned. -/
theorem toUint32_of_nonneg {x : Int} (hlo : 0 ≤ x) (hhi : x < 2 ^ 31) : (toUint32 x : Int) = x := by
  unfold toUint32
  omega

/-- Without a wrap the block is as large as it has to be. -/
theorem grownSize_eq {n i dataSize : Nat} (h : n + i < 2 ^ 31) :
    grownSize (n : Int) i dataSize = max dataSize (n + i) := by
  have hwrap : wrapInt32 ((n : Int) + i) = (n + i : Nat) := by
    rw [wrapInt32_of_range (by omega) (by omega)]
    omega
  have hunsigned : toUint32 ((n + i : Nat) : Int) = n + i := by
    have := toUint32_of_nonneg (x := ((n + i : Nat) : Int)) (by omega) (by omega)
    omega
  unfold grownSize
  rw [hwrap, hunsigned]
  split <;> omega

/-! ## The copy loop -/

/-- The counters of the code are those of the model; `total` bounds what the stream and the frame
    have together, `total + 2` once the first three bytes were copied without a look. -/
structure CopyBounds (total : Nat) (s : TrailerScan) (offset : Int) (dataSize : Nat) : Prop where
  offset_eq : offset = s.data.length
  size_eq : dataSize = s.dataSize
  room : s.data.length ≤ s.dataSize
  fits : s.bufRead ≤ 1024
  skip : s.i ≤ 3
  left : s.found = false →
    s.data.length + s.bufRead.toNat + s.input.length ≤ if s.i = 0 then total + 2 else total
  short : s.data.length ≤ total + 3

section

variable {total : Nat} {s : TrailerScan} {offset : Int} {dataSize : Nat}

/-- A round copies no more than is left, and three bytes. -/
theorem CopyBounds.copied_le (h : CopyBounds total s offset dataSize) (hpos : 0 < s.bufRead)
    (hfound : s.found = false) : s.data.length + s.search.2 ≤ total + 3 := by
  have hsearch := search_snd_le s
  have hskip := h.skip
  have hleft := h.left hfound
  split at hleft <;> omega

/-- A round without a trailer copies the window, or what it was told to skip. -/
theorem search_snd_of_not_found (h : s.search.1 = false) :
    s.search.2 = max s.i s.bufRead.toNat := by
  -- a trailer that is split by the edge counts as found; otherwise the whole window was searched
  unfold TrailerScan.search at h ⊢
  split at h
  · exact nomatch h
  · split at h
    · exact nomatch h
    · rename_i hsplit _ hscan
      rw [if_neg hsplit]

/-- A round copies what it has searched. -/
theorem advance_data (s : TrailerScan) (found : Bool) (i : Nat) :
    (s.advance found i).data = s.data ++ load s.buf s.p i := by
  simp only [TrailerScan.advance]
  split <;> rfl

/-- A round makes room for what it copies. -/
theorem advance_dataSize (s : TrailerScan) (found : Bool) (i : Nat) :
    (s.advance found i).dataSize = max s.dataSize (s.data.length + i) := by
  simp only [TrailerScan.advance]
  split <;> rfl

/-- What a round leaves in the window and in the stream. -/
theorem advance_left {s : TrailerScan} (hfits : s.bufRead ≤ 1024) (found : Bool) (i : Nat) :
    (s.advance found i).bufRead.toNat + (s.advance found i).input.length =
      (s.bufRead - i).toNat + s.input.length := by
  have hlen := length_take_add_drop s.input (1024 - (s.bufRead - i).toNat)
  rw [advance_bufRead, advance_input]
  omega

/-- A round of the copy loop keeps the bounds. -/
theorem CopyBounds.advance (h : CopyBounds total s offset dataSize) (htotal : total + 3 < 2 ^ 31)
    (hpos : 0 < s.bufRead) (hfound : s.found = false) :
    CopyBounds total (s.advance s.search.1 s.search.2) (wrapInt32 (offset + s.search.2))
      (grownSize offset s.search.2 dataSize) := by
  have hcopied := h.copied_le hpos hfound
  have hlen : (s.advance s.search.1 s.search.2).data.length = s.data.length + s.search.2 := by
    rw [advance_data, List.length_append, length_load]
  have hsize := advance_dataSize s s.search.1 s.search.2
  -- the fields in turn: the offset, the size, the room, the window and what is left
  refine ⟨?_, ?_, ?_, ?_, ?_, ?_, ?_⟩
  · rw [h.offset_eq, wrapInt32_of_range (by omega) (by omega), hlen]
    omega
  · rw [h.offset_eq, h.size_eq, grownSize_eq (by omega), hsize]
  · omega
  · exact (advance_bounded (m := s.buf) ⟨h.fits, fun _ _ => rfl⟩ _ _).fits
  · rw [advance_i]
    omega
  · intro hnot
    rw [advance_found] at hnot
    -- without a trailer the whole window is copied
    have hwhole := search_snd_of_not_found hnot
    have hrest := advance_left h.fits s.search.1 s.search.2
    have hskip := h.skip
    have hleft := h.left hfound
    rw [advance_i, if_pos rfl, hlen]
    split at hleft <;> omega
  · omega

/-- A round copies within the frame's buffer. -/
theorem CopyBounds.copy_safe (h : CopyBounds total s offset dataSize)
    (htotal : total + 3 < 2 ^ 31) (hpos : 0 < s.bufRead) (hfound : s.found = false) :
    FrameEvent.Safe (.copy offset s.search.2 (grownSize offset s.search.2 dataSize)) := by
  have hcopied := h.copied_le hpos hfound
  -- the buffer has been made large enough before
  have hgrown : grownSize s.data.length s.search.2 dataSize =
      max dataSize (s.data.length + s.search.2) := grownSize_eq (by omega)
  rw [← h.offset_eq] at hgrown
  have hoffset := h.offset_eq
  refine ⟨?_, ?_, ?_⟩
  · omega
  · omega
  · omega

/-- What is left of the window lies within it. -/
theorem CopyBounds.refill_safe (h : CopyBounds total s offset dataSize)
    (htotal : total + 3 < 2 ^ 31) (hpos : 0 < s.bufRead) (hfound : s.found = false) :
    FrameEvent.Safe
      (if 0 < wrapInt32 (s.bufRead - s.search.2) then
        .refill (wrapInt32 (s.bufRead - s.search.2))
          (readBufferSize - wrapInt32 (s.bufRead - s.search.2))
      else .refill 0 readBufferSize) := by
  have hcopied := h.copied_le hpos hfound
  have hfits := h.fits
  -- `m_buf_read - i` may be negative when the window is shorter than the bytes to skip
  rw [wrapInt32_of_range (by omega) (by omega)]
  split
  · refine ⟨by omega, ?_, rfl⟩
    rw [readBufferSize_eq]
    omega
  · exact safe_refill_all

/-- The block is large enough for what was copied. -/
theorem CopyBounds.sizeTest (h : CopyBounds total s offset dataSize)
    (htotal : total + 3 < 2 ^ 31) : s.sizeTest offset dataSize = [] := by
  have hshort := h.short
  have hroom := h.room
  -- the test compares as unsigned numbers; the offset is not negative
  have hunsigned := toUint32_of_nonneg (x := (s.data.length : Int)) (by omega) (by omega)
  unfold TrailerScan.sizeTest
  rw [h.offset_eq, h.size_eq, if_neg]
  omega

/-- A round that has its memory. -/
theorem step_eq_ok {realloc : Bool} {s' : TrailerScan} (h : s.step realloc = .ok s') :
    s' = s.advance s.search.1 s.search.2 := by
  unfold TrailerScan.step at h
  dsimp only at h
  split at h
  · exact nomatch h
  · cases h
    rfl

/-- All rounds of the copying stay within the buffers. -/
theorem trailerEvents_safe (alloc : Nat → Bool) (fuel k : Nat)
    (h : CopyBounds total s offset dataSize) (htotal : total + 3 < 2 ^ 31) :
    ∀ e ∈ trailerEvents alloc fuel k s offset dataSize, FrameEvent.Safe e := by
  induction fuel generalizing k s offset dataSize with
  | zero =>
    rw [trailerEvents, h.sizeTest htotal]
    exact fun e he => nomatch he
  | succ fuel ih =>
    rw [trailerEvents]
    split
    · rename_i hloop
      cases hstep : s.step (alloc k) with
      | error e => exact fun e he => nomatch he
      | ok s' =>
        rw [step_eq_ok hstep]
        intro e he
        -- this round's copy and read, or a later round's
        rcases List.mem_append.mp he with hround | hrest
        · simp only [TrailerScan.stepEvents, List.mem_cons, List.not_mem_nil, or_false] at hround
          rcases hround with rfl | rfl
          · exact h.copy_safe htotal hloop.1 hloop.2
          · exact h.refill_safe htotal hloop.1 hloop.2
        · exact ih (k + 1) (h.advance htotal hloop.1 hloop.2) e hrest
    · rw [h.sizeTest htotal]
      exact fun e he => nomatch he

end

/-- So does the search for the header. -/
theorem headerEvents_safe (fuel : Nat) (buf : Nat → UInt8) (bufRead : Int) (input : List UInt8) :
    ∀ e ∈ headerEvents fuel buf bufRead input, FrameEvent.Safe e := by
  induction fuel generalizing buf bufRead input with
  | zero => exact fun e he => nomatch he
  | succ fuel ih =>
    unfold headerEvents
    split
    · split
      · exact fun e he => nomatch he
      · intro e he
        rcases List.mem_cons.mp he with rfl | hrest
        · exact safe_refill_all
        · exact ih _ _ _ e hrest
    · exact fun e he => nomatch he

/-- The copy loop starts with an empty block in its first size. -/
theorem copyBounds_copyStart {total : Nat} {c : MjpegCodec} {h : HeaderScan}
    (hfits : h.bufRead - h.i ≤ 1024) (hleft : (h.bufRead - h.i).toNat + h.input.length ≤ total) :
    CopyBounds total (c.copyStart h) 0 mjpegDecoderBufSize where
  offset_eq := rfl
  size_eq := rfl
  room := Nat.zero_le _
  fits := hfits
  skip := Nat.le_refl 3
  left _ := by
    simp only [MjpegCodec.copyStart, List.length_nil, Nat.zero_add]
    exact hleft
  short := Nat.zero_le _

/-- The codec between two calls: the window holds at most its size, and `total` bytes are left. -/
structure CodecBounds (total : Nat) (c : MjpegCodec) (input : List UInt8) : Prop where
  fits : c.bufRead ≤ 1024
  pending : c.pending input ≤ total

section

variable {total : Nat} {c : MjpegCodec} {input : List UInt8}

/-- The first read. -/
theorem CodecBounds.firstRead (h : CodecBounds total c input) :
    CodecBounds total (c.firstRead input).1 (c.firstRead input).2 where
  fits := (firstRead_bounded (m := c.readBuf) input ⟨h.fits, fun _ _ => rfl⟩).fits
  pending := Nat.le_trans (firstRead_pending_le c input) h.pending

/-- What the search for the header leaves. -/
theorem CodecBounds.searchHeader (h : CodecBounds total c input) :
    (c.searchHeader input).bufRead - (c.searchHeader input).i ≤ 1024 ∧
      ((c.searchHeader input).bufRead - (c.searchHeader input).i).toNat +
        (c.searchHeader input).input.length ≤ total := by
  -- the window is refilled within its size, and the search only takes bytes away
  have hbounded := headerLoop_bounded (m := c.readBuf) (input.length + 2) 0 input
    ⟨h.fits, fun _ _ => rfl⟩
  have hpending := headerLoop_pending_le (input.length + 2) c.readBuf c.bufRead 0 input
  exact ⟨(hbounded.sub _).fits, Nat.le_trans hpending h.pending⟩

/-- All accesses of a call are within the buffers. -/
theorem readFrameEvents_safe (alloc : Nat → Bool) (h : CodecBounds total c input)
    (htotal : total + 3 < 2 ^ 31) :
    ∀ e ∈ c.readFrameEvents alloc input, FrameEvent.Safe e := by
  have hheader := h.firstRead.searchHeader
  unfold MjpegCodec.readFrameEvents
  split
  · exact fun e he => nomatch he
  · dsimp only
    intro e he
    -- the first read, the search for the header, or the copying
    rcases List.mem_append.mp he with hfirst | hrest
    · split at hfirst
      · rw [List.mem_singleton.mp hfirst]
        exact safe_refill_all
      · exact nomatch hfirst
    · rcases List.mem_append.mp hrest with hsearch | hcopy
      · exact headerEvents_safe _ _ _ _ e hsearch
      · split at hcopy
        · exact trailerEvents_safe alloc _ 1 (copyBounds_copyStart hheader.1 hheader.2) htotal
            e hcopy
        · exact nomatch hcopy

end

/-! ## The loops end -/

section

variable {buf : Nat → UInt8} {bufRead : Int} {input : List UInt8}

/-- Nothing is searched in an empty buffer. -/
theorem headerLoop_of_empty (fuel i : Nat) (h : ¬ 0 < bufRead) :
    headerLoop fuel buf bufRead i input = ⟨false, i, buf, bufRead, input⟩ := by
  cases fuel with
  | zero => rfl
  | succ fuel => exact if_neg h

/-- A header that is found ends the search. -/
theorem headerLoop_of_some (fuel i : Nat) {j : Nat} (hpos : 0 < bufRead)
    (hscan : markerScan buf 0 0xD8 0 bufRead.toNat = some j) :
    headerLoop (fuel + 1) buf bufRead i input = ⟨true, j, buf, bufRead, input⟩ := by
  rw [headerLoop, if_pos hpos, hscan]

/-- Without a header in the buffer the next bytes are read. -/
theorem headerLoop_of_none (fuel i : Nat) (hpos : 0 < bufRead)
    (hscan : markerScan buf 0 0xD8 0 bufRead.toNat = none) :
    headerLoop (fuel + 1) buf bufRead i input =
      headerLoop fuel (store buf 0 (input.take readBufferSize))
        ((input.take readBufferSize).length : Int) bufRead.toNat (input.drop readBufferSize) := by
  rw [headerLoop, if_pos hpos, hscan]

end

/-- Once the header search is over, a larger budget changes nothing. -/
theorem headerLoop_succ (fuel : Nat) (buf : Nat → UInt8) (bufRead : Int) (i : Nat)
    (input : List UInt8)
    (hdone : (headerLoop fuel buf bufRead i input).found = true ∨
      (headerLoop fuel buf bufRead i input).bufRead ≤ 0) :
    headerLoop (fuel + 1) buf bufRead i input = headerLoop fuel buf bufRead i input := by
  induction fuel generalizing buf bufRead i input with
  | zero =>
    -- without fuel the loop must be over already
    have hempty : ¬ 0 < bufRead := by
      have hread : bufRead ≤ 0 := hdone.resolve_left nofun
      omega
    rw [headerLoop_of_empty 1 i hempty, headerLoop_of_empty 0 i hempty]
  | succ fuel ih =>
    by_cases hpos : 0 < bufRead
    · cases hscan : markerScan buf 0 0xD8 0 bufRead.toNat with
      | some j =>
        rw [headerLoop_of_some (fuel + 1) i hpos hscan, headerLoop_of_some fuel i hpos hscan]
      | none =>
        rw [headerLoop_of_none fuel i hpos hscan] at hdone ⊢
        rw [headerLoop_of_none (fuel + 1) i hpos hscan]
        exact ih _ _ _ _ hdone
    · rw [headerLoop_of_empty _ i hpos, headerLoop_of_empty _ i hpos]

/-- With enough fuel the search does not depend on it. -/
theorem headerLoop_add (n : Nat) {fuel : Nat} {buf : Nat → UInt8} {bufRead : Int} {i : Nat}
    {input : List UInt8} (hfuel : input.length + 1 < fuel) :
    headerLoop (fuel + n) buf bufRead i input = headerLoop fuel buf bufRead i input := by
  induction n with
  | zero => rfl
  | succ n ih =>
    rw [← Nat.add_assoc, headerLoop_succ _ _ _ _ _ (headerLoop_done _ _ _ _ _ (by omega)), ih]

/-- The copy loop is over, or has failed. -/
def CopyOver (r : Except TrailerScan TrailerScan) : Prop :=
  ∀ s, r = .ok s → s.found = true ∨ s.bufRead ≤ 0

/-- Copying that is over does not change with more fuel. -/
theorem trailerLoop_succ (alloc : Nat → Bool) (fuel k : Nat) (s : TrailerScan)
    (hdone : CopyOver (trailerLoop alloc fuel k s)) :
    trailerLoop alloc (fuel + 1) k s = trailerLoop alloc fuel k s := by
  induction fuel generalizing k s with
  | zero =>
    -- without fuel the copying must be over already
    rcases hdone s rfl with hfound | hempty
    · exact trailerLoop_of_found 1 k hfound
    · exact trailerLoop_of_empty 1 k (by omega)
  | succ fuel ih =>
    by_cases hloop : 0 < s.bufRead ∧ s.found = false
    · rw [trailerLoop, if_pos hloop] at hdone ⊢
      rw [trailerLoop, if_pos hloop]
      cases hstep : s.step (alloc k) with
      | error e => rfl
      | ok s' =>
        rw [hstep] at hdone
        exact ih (k + 1) s' hdone
    · rw [trailerLoop, if_neg hloop, trailerLoop, if_neg hloop]

/-- There is enough fuel for the copying. -/
theorem copyOver_trailerLoop (alloc : Nat → Bool) {fuel : Nat} (k : Nat) {s : TrailerScan}
    (hfuel : s.input.length + 1 < fuel) : CopyOver (trailerLoop alloc fuel k s) :=
  fun _ h => trailerLoop_done alloc fuel k hfuel h

/-- With enough fuel the copying does not depend on it. -/
theorem trailerLoop_add (alloc : Nat → Bool) (n : Nat) {fuel : Nat} (k : Nat) {s : TrailerScan}
    (hfuel : s.input.length + 1 < fuel) :
    trailerLoop alloc (fuel + n) k s = trailerLoop alloc fuel k s := by
  induction n with
  | zero => rfl
  | succ n ih =>
    rw [← Nat.add_assoc, trailerLoop_succ _ _ _ _ (copyOver_trailerLoop alloc k (by omega)), ih]

/-- Both loops of the call are over within their budget: in the header search a header was found or
    the window is empty, in the copy loop a trailer was found, the window is empty or an allocation
    has failed; and more rounds change nothing. -/
def CallEnds (alloc : Nat → Bool) (c : MjpegCodec) (input : List UInt8) : Prop :=
  ((c.searchHeader input).found = true ∨ (c.searchHeader input).bufRead ≤ 0) ∧
    (∀ n, headerLoop (input.length + 2 + n) c.readBuf c.bufRead 0 input = c.searchHeader input) ∧
    CopyOver (c.searchTrailer alloc (c.searchHeader input)) ∧
    ∀ n, trailerLoop alloc ((c.searchHeader input).input.length + 2 + n) 1
        (c.copyStart (c.searchHeader input)) = c.searchTrailer alloc (c.searchHeader input)

/-- Every call ends. -/
theorem readFrame_ends (alloc : Nat → Bool) (c : MjpegCodec) (input : List UInt8) :
    CallEnds alloc c input := by
  have hcopy : (c.copyStart (c.searchHeader input)).input.length + 1 <
      (c.searchHeader input).input.length + 2 := Nat.lt_succ_self _
  refine ⟨?_, fun n => ?_, ?_, fun n => ?_⟩
  · exact headerLoop_done _ _ _ _ _ (Nat.lt_succ_self _)
  · exact headerLoop_add n (Nat.lt_succ_self _)
  · exact copyOver_trailerLoop alloc 1 hcopy
  · exact trailerLoop_add alloc n 1 hcopy

/-! ## Every sequence of calls -/

/-- The call ends, and stays within the buffers. -/
def WithinBuffers (r : Reading) : ReadCall → Prop
  | .readFrame alloc =>
    CallEnds alloc (r.codec.firstRead r.rest).1 (r.codec.firstRead r.rest).2 ∧
      ∀ e ∈ r.codec.readFrameEvents alloc r.rest, FrameEvent.Safe e
  | .resetInputStatus _ => True

/-- If the call starts another stream, it is one of less than 2^31 - 2048 bytes. -/
def ReadCall.Short : ReadCall → Prop
  | .readFrame _ | .resetInputStatus none => True
  | .resetInputStatus (some stream) => stream.length < 2 ^ 31 - 2048

section

variable {total : Nat} {c : MjpegCodec} {input : List UInt8}

/-- No round takes bytes back. -/
theorem trailerLoop_pending_le (alloc : Nat → Bool) (fuel k : Nat) {s r : TrailerScan}
    (hfits : s.bufRead ≤ 1024) (hleft : s.bufRead.toNat + s.input.length ≤ total)
    (h : trailerLoop alloc fuel k s = .ok r ∨ trailerLoop alloc fuel k s = .error r) :
    r.bufRead.toNat + r.input.length ≤ total := by
  -- both facts together are kept by a round: the second is needed for the first
  have hrule := trailerLoop_preserves
    (P := fun t => t.bufRead.toNat + t.input.length ≤ total ∧ t.bufRead ≤ 1024) alloc
    (fun t ht _ _ => by
      have hrest := advance_left ht.2 t.search.1 t.search.2
      exact ⟨by omega, (advance_bounded (m := t.buf) ⟨ht.2, fun _ _ => rfl⟩ _ _).fits⟩)
    (fun _ _ _ ht => ht) fuel k ⟨hleft, hfits⟩ h
  exact hrule.1

/-- A call adds nothing to what is pending. -/
theorem readFrame_pending_le (alloc : Nat → Bool) (h : CodecBounds total c input) :
    (c.readFrame alloc input).2.1.pending (c.readFrame alloc input).2.2 ≤ total := by
  have hheader := h.firstRead.searchHeader
  unfold MjpegCodec.readFrame
  split
  · exact h.pending
  · dsimp only
    split
    · split
      · rename_i s hs
        exact trailerLoop_pending_le alloc _ 1 hheader.1 hheader.2 (.inr hs)
      · rename_i s hs
        split
        · -- with a trailer or without one, the scan is what the copy loop has left
          exact trailerLoop_pending_le alloc _ 1 hheader.1 hheader.2 (.inl hs)
        · exact trailerLoop_pending_le alloc _ 1 hheader.1 hheader.2 (.inl hs)
    · exact hheader.2

/-- A call keeps the bounds. -/
theorem CodecBounds.readFrame (alloc : Nat → Bool) (h : CodecBounds total c input) :
    CodecBounds total (c.readFrame alloc input).2.1 (c.readFrame alloc input).2.2 where
  fits := (readFrame_bounded (m := c.readBuf) alloc input ⟨h.fits, fun _ _ => rfl⟩).fits
  pending := readFrame_pending_le alloc h

/-- A codec that was reset has nothing in its window. -/
theorem CodecBounds.resetInputStatus (c : MjpegCodec) {input : List UInt8}
    (hinput : input.length ≤ total) : CodecBounds total c.resetInputStatus input where
  fits := by
    show (0 : Int) ≤ 1024
    decide
  pending := by
    simpa [MjpegCodec.pending, MjpegCodec.resetInputStatus] using hinput

end

/-- No call has more of a stream left than the longest one has. -/
theorem codecBounds_step {total : Nat} {r : Reading} (call : ReadCall)
    (h : CodecBounds total r.codec r.rest)
    (hshort : ∀ stream, call = .resetInputStatus (some stream) → stream.length ≤ total) :
    CodecBounds total (r.step call).codec (r.step call).rest := by
  cases call with
  | readFrame alloc => exact h.readFrame alloc
  | resetInputStatus stream =>
    cases stream with
    | none =>
      have hpending := h.pending
      unfold MjpegCodec.pending at hpending
      -- the window is given up, and the stream goes on from where it was read to
      have hrest : r.rest.length ≤ total := by omega
      exact .resetInputStatus _ hrest
    | some stream => exact .resetInputStatus _ (hshort stream rfl)

/-- For every sequence of calls on streams of less than 2^31 - 2048 bytes, with any allocations
    failing: each call ends; each copy into the frame fits into the block; each refill lies within
    the window; and the block is never found to be too small. -/
theorem readFrame_within_buffers (behind : Nat → UInt8) (stream : List UInt8)
    (hlen : stream.length < 2 ^ 31 - 2048) (calls : List ReadCall)
    (hcalls : ∀ call ∈ calls, call.Short) :
    Always Reading.step WithinBuffers (.init behind stream) calls := by
  -- the longest stream bounds what is pending at any time
  apply Always.mono (I := fun r => CodecBounds (2 ^ 31 - 2049) r.codec r.rest)
    (Q := fun _ call => call.Short)
  · intro r call h _
    cases call with
    | readFrame alloc =>
      exact ⟨readFrame_ends alloc _ _, readFrameEvents_safe alloc h (by omega)⟩
    | resetInputStatus stream => trivial
  · intro r call h hshort
    apply codecBounds_step call h
    rintro stream rfl
    exact Nat.le_sub_one_of_lt hshort
  · refine ⟨by show (0 : Int) ≤ 1024; decide, ?_⟩
    simp only [Reading.init, MjpegCodec.pending, MjpegCodec.fresh]
    omega
  · exact Always.of_forall hcalls

/-- A frame, a reset in the middle of the stream, a call whose first allocation fails, and a
    second stream. -/
theorem readFrame_within_buffers_frame :
    Always Reading.step WithinBuffers
      (.init (fun _ => 0) [0xFF, 0xD8, 1, 0xFF, 0xD9, 0xFF, 0xD8])
      [.readFrame fun _ => true, .resetInputStatus none, .readFrame fun _ => false,
        .resetInputStatus (some [0xFF, 0xD8]), .readFrame fun _ => true] := by
  apply readFrame_within_buffers _ _ (by decide)
  simp [ReadCall.Short]

end Ivy.Spec
