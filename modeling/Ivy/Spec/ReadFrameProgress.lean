import Ivy.Spec.ReadWindow

/-!
# What a call of read_frame does to any stream

The lemmas of this module hold for every stream, window and outcome of the
allocations. The window never holds more than 1024 bytes and the cells behind it
are never written (`Bounded`). Both searches end before their budget does. A call
that returns a frame takes at least one byte, and leaves a full window unless the
stream is used up (`Advanced`), so the blocks of a stream can be counted off one
call at a time (`afterFrames`).
-/

namespace Ivy.Spec

open Ivy.Mem Ivy.Native

/-- The window holds at most its size, and the cells behind it are those of `m`. -/
structure Bounded (m : Nat → UInt8) (buf : Nat → UInt8) (bufRead : Int) : Prop where
  fits : bufRead ≤ 1024
  behind : ∀ j, 1024 ≤ j → buf j = m j

/-- A read stays within the buffer. -/
theorem Bounded.refill {m buf : Nat → UInt8} {bufRead : Int} (hb : Bounded m buf bufRead)
    (input : List UInt8) :
    Bounded m (store buf 0 (input.take 1024)) ((input.take 1024).length : Int) where
  fits := by rw [List.length_take]; omega
  behind j hj := by
    rw [store_of_ge _ _ (by rw [List.length_take]; omega)]
    exact hb.behind j hj

/-- Bytes are taken from the window. -/
theorem Bounded.sub {m buf : Nat → UInt8} {bufRead : Int} (hb : Bounded m buf bufRead) (n : Nat) :
    Bounded m buf (bufRead - n) where
  fits := by have := hb.fits; omega
  behind := hb.behind

/-- What is read and what is left make the whole. -/
theorem length_take_add_drop (l : List UInt8) (n : Nat) :
    (l.take n).length + (l.drop n).length = l.length := by
  rw [List.length_take, List.length_drop]; omega

/-! ## Header search -/

/-- The search for the header stays within the buffer. -/
theorem headerLoop_bounded {m : Nat → UInt8} (fuel i : Nat) {buf : Nat → UInt8} {bufRead : Int}
    (input : List UInt8) (hb : Bounded m buf bufRead) :
    Bounded m (headerLoop fuel buf bufRead i input).buf
      (headerLoop fuel buf bufRead i input).bufRead := by
  induction fuel generalizing buf bufRead i input with
  | zero => exact hb
  | succ fuel ih =>
    unfold headerLoop
    split
    · split
      · exact hb
      · -- no header in the window: it is filled anew, from its first cell on
        exact ih _ _ (hb.refill input)
    · exact hb

/-- The header search only throws bytes away. -/
theorem headerLoop_pending_le (fuel : Nat) (buf : Nat → UInt8) (bufRead : Int) (i : Nat)
    (input : List UInt8) :
    ((headerLoop fuel buf bufRead i input).bufRead -
        (headerLoop fuel buf bufRead i input).i).toNat +
      (headerLoop fuel buf bufRead i input).input.length ≤ bufRead.toNat + input.length := by
  induction fuel generalizing buf bufRead i input with
  | zero => simp only [headerLoop]; omega
  | succ fuel ih =>
    unfold headerLoop
    split
    · split
      · dsimp only; omega
      · -- the bytes that were read into the buffer have left the stream
        have hrest := ih (store buf 0 (input.take readBufferSize))
          ((input.take readBufferSize).length : Int) bufRead.toNat (input.drop readBufferSize)
        have hlen := length_take_add_drop input readBufferSize
        dsimp only
        omega
    · dsimp only; omega

/-- The budget of the header search is enough: it ends at a header or with an
    empty window. -/
theorem headerLoop_done (fuel : Nat) (buf : Nat → UInt8) (bufRead : Int) (i : Nat)
    (input : List UInt8) (hfuel : input.length + 1 < fuel) :
    (headerLoop fuel buf bufRead i input).found = true ∨
      (headerLoop fuel buf bufRead i input).bufRead ≤ 0 := by
  induction fuel generalizing buf bufRead i input with
  | zero => omega
  | succ fuel ih =>
    unfold headerLoop
    split
    · split
      · exact .inl rfl
      · -- a refill takes a byte, or leaves an empty window, where the loop ends
        cases input with
        | nil =>
          cases fuel with
          | zero => right; simp [headerLoop]
          | succ fuel => right; simp [headerLoop]
        | cons x xs =>
          apply ih
          simp only [List.length_drop, List.length_cons, readBufferSize_eq] at hfuel ⊢
          omega
    · rename_i hpos
      right; dsimp only; omega

/-! ## Trailer search -/

/-- Rule for the copy loop: what every round keeps holds of the scan it ends in. -/
theorem trailerLoop_preserves {P : TrailerScan → Prop} (alloc : Nat → Bool)
    (hround : ∀ s, P s → 0 < s.bufRead → s.found = false →
      P (s.advance s.search.1 s.search.2))
    (hfail : ∀ s found i, P s → P { s with found, i }) (fuel k : Nat) {s r : TrailerScan}
    (hs : P s) (h : trailerLoop alloc fuel k s = .ok r ∨ trailerLoop alloc fuel k s = .error r) :
    P r := by
  induction fuel generalizing k s with
  | zero =>
    simp only [trailerLoop, Except.ok.injEq, reduceCtorEq, or_false] at h
    exact h ▸ hs
  | succ fuel ih =>
    rcases trailerLoop_cases alloc fuel k s with ⟨-, hloop⟩ | ⟨⟨hpos, hf⟩, hloop | hloop⟩ <;>
      rw [hloop] at h
    · simp only [Except.ok.injEq, reduceCtorEq, or_false] at h
      exact h ▸ hs
    · simp only [reduceCtorEq, Except.error.injEq, false_or] at h
      -- a failed allocation keeps the window and notes what was found
      exact h ▸ hfail s _ _ hs
    · exact ih (k + 1) (hround s hs hpos hf) h

/-- A round copies at least the bytes it was told to skip. -/
theorem le_search_snd (s : TrailerScan) : s.i ≤ s.search.2 := by
  unfold TrailerScan.search
  split
  · exact Nat.le_refl _
  · split
    · rename_i j hj
      have := (markerScan_eq_some.mp hj).1
      dsimp only; omega
    · exact Nat.le_max_left _ _

/-- A round copies at most the window and the byte behind it, or what it was told to skip. -/
theorem search_snd_le (s : TrailerScan) : s.search.2 ≤ max s.i (s.bufRead.toNat + 1) := by
  unfold TrailerScan.search
  split
  · exact Nat.le_max_left _ _
  · split
    · rename_i j hscan
      -- two bytes behind a marker in the window
      have hlt := (markerScan_eq_some.mp hscan).2.1
      dsimp only
      omega
    · dsimp only
      omega

/-- The first round never asks for memory: what it copies fits into the block. -/
theorem trailerLoop_copyStart (alloc : Nat → Bool) (fuel k : Nat) {c : MjpegCodec}
    {h : HeaderScan} (hpos : 0 < h.bufRead - h.i) (hfits : h.bufRead - h.i ≤ 1024) :
    trailerLoop alloc (fuel + 1) k (c.copyStart h) =
      trailerLoop alloc fuel (k + 1)
        ((c.copyStart h).advance (c.copyStart h).search.1 (c.copyStart h).search.2) := by
  have hle := search_snd_le (c.copyStart h)
  -- at most 1025 bytes, and the block is larger
  have hroom : ¬ ((c.copyStart h).data.length + (c.copyStart h).search.2 >
      (c.copyStart h).dataSize ∧ alloc k = false) := by
    simp only [MjpegCodec.copyStart, List.length_nil, mjpegDecoderBufSize] at hle ⊢
    omega
  rw [trailerLoop, if_pos ⟨hpos, rfl⟩]
  simp only [TrailerScan.step, if_neg hroom]

/-- A round without a trailer copies the whole window. -/
theorem bufRead_le_search_snd {s : TrailerScan} (h : s.search.1 = false) :
    s.bufRead ≤ s.search.2 := by
  unfold TrailerScan.search at h ⊢
  split at h
  · exact absurd h (by simp)
  · split at h
    · exact absurd h (by simp)
    · -- no marker in the window, and none across its end
      rename_i hsplit _ hscan
      rw [if_neg hsplit]
      dsimp only; omega

/-- A round of the copying stays within the buffer, -/
theorem advance_bounded {m : Nat → UInt8} {s : TrailerScan} (hb : Bounded m s.buf s.bufRead)
    (found : Bool) (i : Nat) :
    Bounded m (s.advance found i).buf (s.advance found i).bufRead := by
  have hfits := hb.fits
  unfold TrailerScan.advance
  dsimp only
  split
  · -- what is left is moved to the front and filled up behind it
    refine ⟨?_, fun j hj => ?_⟩
    · dsimp only; rw [List.length_take, readBufferSize_eq]; omega
    · dsimp only
      rw [store_of_ge _ _ (by rw [List.length_take, readBufferSize_eq]; omega),
        store_of_ge _ _ (by rw [length_load]; omega)]
      exact hb.behind j hj
  · -- nothing is left: the whole window is read
    exact hb.refill s.input

/-- and so do all of them. -/
theorem trailerLoop_bounded {m : Nat → UInt8} (alloc : Nat → Bool) (fuel k : Nat)
    {s r : TrailerScan} (hb : Bounded m s.buf s.bufRead)
    (h : trailerLoop alloc fuel k s = .ok r ∨ trailerLoop alloc fuel k s = .error r) :
    Bounded m r.buf r.bufRead :=
  trailerLoop_preserves (P := fun s => Bounded m s.buf s.bufRead) alloc
    (fun _ hs _ _ => advance_bounded hs _ _) (fun _ _ _ hs => hs) fuel k hb h

/-- Less than `bound` bytes are left, and the window is full unless the stream is
    used up. -/
structure Advanced (bound : Nat) (bufRead : Int) (input : List UInt8) : Prop where
  nonneg : 0 ≤ bufRead
  full : input ≠ [] → bufRead = 1024
  pending : bufRead.toNat + input.length < bound

/-- A weaker bound. -/
theorem Advanced.mono {bound bound' : Nat} {bufRead : Int} {input : List UInt8}
    (h : Advanced bound bufRead input) (hle : bound ≤ bound') : Advanced bound' bufRead input where
  nonneg := h.nonneg
  full := h.full
  pending := Nat.lt_of_lt_of_le h.pending hle

/-- What is left of the window is filled up from the input. -/
theorem advance_bufRead (s : TrailerScan) (found : Bool) (i : Nat) :
    (s.advance found i).bufRead =
      (s.input.take (1024 - (s.bufRead - i).toNat)).length + (s.bufRead - i).toNat := by
  unfold TrailerScan.advance
  dsimp only
  split
  · dsimp only [readBufferSize_eq]; omega
  · rw [show (s.bufRead - i).toNat = 0 by omega]; rfl

/-- A round reads as much as the window has room for. -/
theorem advance_input (s : TrailerScan) (found : Bool) (i : Nat) :
    (s.advance found i).input = s.input.drop (1024 - (s.bufRead - i).toNat) := by
  unfold TrailerScan.advance
  dsimp only
  split
  · rfl
  · rw [show (s.bufRead - i).toNat = 0 by omega]; rfl

/-- A round that copies `i` bytes takes them, or all of the window. -/
theorem advance_advanced {s : TrailerScan} {bound : Nat} (hfits : s.bufRead ≤ 1024)
    (found : Bool) (i : Nat) (hlt : (s.bufRead - i).toNat + s.input.length < bound) :
    Advanced bound (s.advance found i).bufRead (s.advance found i).input := by
  have hlen := length_take_add_drop s.input (1024 - (s.bufRead - i).toNat)
  rw [advance_bufRead, advance_input]
  refine ⟨by omega, fun hrest => ?_, by omega⟩
  -- bytes are left behind the refill, so it got all it asked for
  have hmore : 1024 - (s.bufRead - i).toNat < s.input.length := by
    by_contra hlt
    exact hrest (List.drop_eq_nil_iff.mpr (by omega))
  rw [List.length_take]
  omega

/-- A copy loop that finds a trailer has taken at least one byte. -/
theorem trailerLoop_advanced (alloc : Nat → Bool) (fuel k : Nat) {s r : TrailerScan}
    (hfits : s.bufRead ≤ 1024) (hi : 0 < s.i) (hstart : s.found = false)
    (h : trailerLoop alloc fuel k s = .ok r) (hfound : r.found = true) :
    Advanced (s.bufRead.toNat + s.input.length) r.bufRead r.input := by
  cases fuel with
  | zero =>
    simp only [trailerLoop, Except.ok.injEq] at h
    rw [← h, hstart] at hfound
    exact absurd hfound (by simp)
  | succ fuel =>
    rcases trailerLoop_cases alloc fuel k s with ⟨-, hloop⟩ | ⟨⟨hpos, -⟩, hloop | hloop⟩ <;>
      rw [hloop] at h
    · cases h
      rw [hstart] at hfound
      cases hfound
    · cases h
    · -- the first round takes a byte, the later ones take none back
      have hle := le_search_snd s
      have hfirst : Advanced (s.bufRead.toNat + s.input.length)
          (s.advance s.search.1 s.search.2).bufRead
          (s.advance s.search.1 s.search.2).input :=
        advance_advanced hfits _ _ (by omega)
      have hfits' : (s.advance s.search.1 s.search.2).bufRead ≤ 1024 :=
        (advance_bounded (m := s.buf) ⟨hfits, fun _ _ => rfl⟩ _ _).fits
      have hrule := trailerLoop_preserves
        (P := fun t => Advanced (s.bufRead.toNat + s.input.length) t.bufRead t.input ∧
          t.bufRead ≤ 1024) alloc
        (fun t ht _ _ => ⟨advance_advanced ht.2 _ _ (by have := ht.1.pending; omega),
          (advance_bounded (m := t.buf) ⟨ht.2, fun _ _ => rfl⟩ _ _).fits⟩)
        (fun _ _ _ ht => ht) fuel (k + 1) ⟨hfirst, hfits'⟩ (.inl h)
      exact hrule.1

/-- The budget of the copy loop is enough: it ends at a trailer, with an empty
    window or with a failed allocation. -/
theorem trailerLoop_done (alloc : Nat → Bool) (fuel k : Nat) {s r : TrailerScan}
    (hfuel : s.input.length + 1 < fuel) (h : trailerLoop alloc fuel k s = .ok r) :
    r.found = true ∨ r.bufRead ≤ 0 := by
  induction fuel generalizing k s with
  | zero => omega
  | succ fuel ih =>
    rcases trailerLoop_cases alloc fuel k s with ⟨hover, hloop⟩ | ⟨-, hloop | hloop⟩ <;>
      rw [hloop] at h
    · cases h
      exact hover
    · exact nomatch h
    · -- a trailer ends the loop in the next round
      cases hf : s.search.1 with
      | true =>
        rw [trailerLoop_of_found _ _ ((advance_found ..).trans hf)] at h
        cases h
        exact .inl ((advance_found ..).trans hf)
      | false =>
        have hle := bufRead_le_search_snd hf
        have hread := advance_bufRead s s.search.1 s.search.2
        have hinput := advance_input s s.search.1 s.search.2
        rw [show (s.bufRead - s.search.2).toNat = 0 by omega] at hread hinput
        -- the window was used up: a refill takes a byte, or leaves it empty
        cases hin : s.input with
        | nil =>
          have hempty : (s.advance s.search.1 s.search.2).bufRead = 0 := by
            rw [hread, hin]
            rfl
          rw [trailerLoop_of_empty _ _ (by omega)] at h
          cases h
          exact .inr (Int.le_of_eq hempty)
        | cons x xs =>
          refine ih (k + 1) ?_ h
          rw [hinput, hin, List.length_drop, List.length_cons]
          rw [hin, List.length_cons] at hfuel
          omega

/-! ## read_frame -/

/-- The first read stays within the buffer. -/
theorem firstRead_bounded {m : Nat → UInt8} {c : MjpegCodec} (input : List UInt8)
    (hb : Bounded m c.readBuf c.bufRead) :
    Bounded m (c.firstRead input).1.readBuf (c.firstRead input).1.bufRead := by
  unfold MjpegCodec.firstRead
  split
  · exact hb.refill input
  · exact hb

/-- The first read takes nothing. -/
theorem firstRead_pending_le (c : MjpegCodec) (input : List UInt8) :
    (c.firstRead input).1.pending (c.firstRead input).2 ≤ c.pending input := by
  unfold MjpegCodec.firstRead MjpegCodec.pending
  split
  · have hlen := length_take_add_drop input readBufferSize
    dsimp only; omega
  · exact Nat.le_refl _

/-- The window stays within its size and nothing behind it is written, whatever a
    call returns. -/
theorem readFrame_bounded {m : Nat → UInt8} (alloc : Nat → Bool) {c : MjpegCodec}
    (input : List UInt8) (hb : Bounded m c.readBuf c.bufRead) :
    Bounded m (c.readFrame alloc input).2.1.readBuf (c.readFrame alloc input).2.1.bufRead := by
  have hfirst := firstRead_bounded input hb
  have hheader := headerLoop_bounded ((c.firstRead input).2.length + 2) 0 (c.firstRead input).2
    hfirst
  -- the window is kept by the first read, the header search and the copying in turn
  unfold MjpegCodec.readFrame
  split
  · exact hb
  · dsimp only [MjpegCodec.searchHeader]
    split
    · have htrailer {r : TrailerScan} := trailerLoop_bounded (r := r) alloc
        ((headerLoop ((c.firstRead input).2.length + 2) (c.firstRead input).1.readBuf
          (c.firstRead input).1.bufRead 0 (c.firstRead input).2).input.length + 2) 1
        (s := (c.firstRead input).1.copyStart _) (hheader.sub _)
      split
      · rename_i s hs
        exact htrailer (.inr hs)
      · rename_i s hs
        split
        · exact htrailer (.inl hs)
        · exact htrailer (.inl hs)
    · exact hheader.sub _

/-- A call that returns a frame takes at least one byte and leaves a full window
    unless the stream is used up. -/
theorem readFrame_advanced (alloc : Nat → Bool) {c c' : MjpegCodec} {input input' data : List UInt8}
    (hfits : c.bufRead ≤ 1024) (h : c.readFrame alloc input = (some data, c', input')) :
    Advanced (c.pending input) c'.bufRead input' := by
  have hfirst := firstRead_bounded (m := c.readBuf) input ⟨hfits, fun _ _ => rfl⟩
  have hheader := headerLoop_bounded ((c.firstRead input).2.length + 2) 0 (c.firstRead input).2
    hfirst
  have hle := headerLoop_pending_le ((c.firstRead input).2.length + 2)
    (c.firstRead input).1.readBuf (c.firstRead input).1.bufRead 0 (c.firstRead input).2
  have hle' := firstRead_pending_le c input
  unfold MjpegCodec.readFrame at h
  -- each branch that fails has no frame
  split at h
  · simp at h
  · dsimp only [MjpegCodec.searchHeader, MjpegCodec.searchTrailer] at h
    split at h
    · split at h
      · simp at h
      · rename_i s hs
        split at h
        · rename_i hdone
          simp only [Prod.mk.injEq, Option.some.injEq] at h
          obtain ⟨-, rfl, rfl⟩ := h
          -- the copy takes at least the header
          have hadv := trailerLoop_advanced alloc _ 1 (hheader.sub _).fits
            (by simp [MjpegCodec.copyStart]) rfl hs hdone.1
          refine hadv.mono ?_
          unfold MjpegCodec.pending at hle'
          dsimp only [MjpegCodec.copyStart, MjpegCodec.pending]
          omega
        · simp at h
    · simp at h

/-! ## Counting off the frames of a stream -/

/-- The codec and the rest of the stream after `i` calls, with every allocation
    succeeding. -/
def afterFrames (c : MjpegCodec) (input : List UInt8) : Nat → MjpegCodec × List UInt8
  | 0 => (c, input)
  | i + 1 =>
    ((afterFrames c input i).1.readFrame (fun _ => true) (afterFrames c input i).2).2

/-- The block call number `i` returns. -/
def frameAt (c : MjpegCodec) (input : List UInt8) (i : Nat) : Option (List UInt8) :=
  ((afterFrames c input i).1.readFrame (fun _ => true) (afterFrames c input i).2).1

/-- The bytes behind the first `i` frames. -/
def pendingAfter (c : MjpegCodec) (input : List UInt8) (i : Nat) : Nat :=
  (afterFrames c input i).1.pending (afterFrames c input i).2

/-- The next frame is read where the last one has left the codec. -/
theorem afterFrames_succ {c : MjpegCodec} {input data : List UInt8} {i : Nat}
    (h : frameAt c input i = some data) :
    (afterFrames c input i).1.readFrame (fun _ => true) (afterFrames c input i).2 =
      (some data, afterFrames c input (i + 1)) := by
  rw [← h]; rfl

/-- The first frame, and those after it. -/
theorem afterFrames_succ_head {c c' : MjpegCodec} {input input' : List UInt8}
    {data : Option (List UInt8)} (h : c.readFrame (fun _ => true) input = (data, c', input'))
    (i : Nat) : afterFrames c input (i + 1) = afterFrames c' input' i := by
  induction i with
  | zero => simp only [afterFrames, h]
  | succ i ih => rw [afterFrames, ih, afterFrames]

/-- The frames of a run are those of the single calls. -/
theorem readFrames_getElem? {n : Nat} {c : MjpegCodec} {input : List UInt8}
    (hfits : c.bufRead ≤ 1024) (hn : c.pending input < n) {i : Nat}
    (hi : i ≤ (MjpegCodec.readFrames (fun _ => true) n c input).length) :
    frameAt c input i = (MjpegCodec.readFrames (fun _ => true) n c input)[i]? := by
  induction n generalizing c input i with
  | zero => omega
  | succ n ih =>
    unfold MjpegCodec.readFrames at hi ⊢
    rcases hread : c.readFrame (fun _ => true) input with ⟨data, c', input'⟩
    rw [hread] at hi
    cases data with
    | none =>
      have hzero : i = 0 := by simpa using hi
      simp only [hzero, frameAt, afterFrames, hread, List.getElem?_nil]
    -- the first block, and the others by induction from the codec it leaves
    | some data =>
      cases i with
      | zero => simp only [frameAt, afterFrames, hread, List.getElem?_cons_zero]
      | succ i =>
        -- the call took a byte, so the smaller budget still covers the rest
        have hadv := readFrame_advanced _ hfits hread
        have hfits' := (readFrame_bounded (m := c.readBuf) (fun _ => true) input
          ⟨hfits, fun _ _ => rfl⟩).fits
        rw [hread] at hfits'
        have hrest := ih hfits' (Nat.lt_of_lt_of_le hadv.pending (by omega)) (i := i)
          (by simpa using hi)
        simp only [frameAt, afterFrames_succ_head hread, List.getElem?_cons_succ] at hrest ⊢
        exact hrest

/-- Call number `i` returns block number `i`, and the call after the last block
    returns none. -/
theorem frameAt_eq_getElem? {c : MjpegCodec} (input : List UInt8) (hfits : c.bufRead ≤ 1024)
    {i : Nat} (hi : i ≤ (c.frames input).length) : frameAt c input i = (c.frames input)[i]? :=
  readFrames_getElem? hfits (Nat.lt_succ_self _) hi

/-- The calls stay within the buffer. -/
theorem afterFrames_bounded {m : Nat → UInt8} {c : MjpegCodec} (input : List UInt8)
    (hb : Bounded m c.readBuf c.bufRead) (i : Nat) :
    Bounded m (afterFrames c input i).1.readBuf (afterFrames c input i).1.bufRead := by
  induction i with
  | zero => exact hb
  | succ i ih => exact readFrame_bounded _ _ ih

/-- After a frame the stream is used up exactly if no more than a window is left. -/
theorem afterFrames_rest_eq_nil_iff {c : MjpegCodec} {input data : List UInt8} {i : Nat}
    (hfits : c.bufRead ≤ 1024) (h : frameAt c input i = some data) :
    (afterFrames c input (i + 1)).2 = [] ↔ pendingAfter c input (i + 1) ≤ 1024 := by
  have hb := fun i => (afterFrames_bounded (m := c.readBuf) input ⟨hfits, fun _ _ => rfl⟩ i).fits
  have hadv := readFrame_advanced _ (hb i) (afterFrames_succ h)
  have hle := hb (i + 1)
  unfold pendingAfter MjpegCodec.pending
  constructor
  · intro hnil
    rw [hnil, List.length_nil]; omega
  · intro hlt
    by_contra hne
    -- a stream that is not used up fills the window
    have hfull : (afterFrames c input (i + 1)).1.bufRead = 1024 := hadv.full hne
    have hpos := List.length_pos_iff.mpr hne
    omega

/-- Every frame takes at least a byte. -/
theorem pendingAfter_succ_lt {c : MjpegCodec} {input data : List UInt8} {i : Nat}
    (hfits : c.bufRead ≤ 1024) (h : frameAt c input i = some data) :
    pendingAfter c input (i + 1) < pendingAfter c input i := by
  have hb := (afterFrames_bounded (m := c.readBuf) input ⟨hfits, fun _ _ => rfl⟩ i).fits
  exact (readFrame_advanced _ hb (afterFrames_succ h)).pending

/-- Every frame takes at least one byte. -/
theorem pendingAfter_add_le {c : MjpegCodec} (input : List UInt8) (hfits : c.bufRead ≤ 1024)
    {i j : Nat} (hij : i ≤ j) (hj : j ≤ (c.frames input).length) :
    pendingAfter c input j + (j - i) ≤ pendingAfter c input i := by
  induction hij with
  | refl => omega
  | @step j hij ih =>
    have hframe := frameAt_eq_getElem? input hfits (Nat.le_of_lt hj)
    -- call number `j` has a block, because the stream has more than `j`
    rw [List.getElem?_eq_getElem hj] at hframe
    have hlt := pendingAfter_succ_lt hfits hframe
    have hle := ih (Nat.le_of_lt hj)
    rw [Nat.succ_eq_add_one]
    omega

/-! ## Reading a stream again -/

/-- A call depends on what the first read leaves. -/
theorem readFrame_of_firstRead {alloc : Nat → Bool} {c₁ c₂ : MjpegCodec} {input : List UInt8}
    (halloc : alloc 0 = true)
    (hbuf : (c₁.firstRead input).1.readBuf = (c₂.firstRead input).1.readBuf)
    (hread : (c₁.firstRead input).1.bufRead = (c₂.firstRead input).1.bufRead)
    (hindex : (c₁.firstRead input).1.inputIndex = (c₂.firstRead input).1.inputIndex)
    (hrest : (c₁.firstRead input).2 = (c₂.firstRead input).2) :
    c₁.readFrame alloc input = c₂.readFrame alloc input := by
  -- with the first allocation granted both calls go on from their first read
  unfold MjpegCodec.readFrame MjpegCodec.searchTrailer MjpegCodec.copyStart
    MjpegCodec.searchHeader
  rw [if_neg (by simp [halloc]), if_neg (by simp [halloc])]
  simp only [hbuf, hread, hindex, hrest]

/-- A codec that has read nothing yet need not be reset. -/
theorem readFrame_resetInputStatus_self {c : MjpegCodec} (hindex : c.inputIndex = 0)
    (input : List UInt8) :
    c.resetInputStatus.readFrame (fun _ => true) input = c.readFrame (fun _ => true) input := by
  apply readFrame_of_firstRead rfl <;>
    simp only [MjpegCodec.firstRead, MjpegCodec.resetInputStatus, hindex, if_true]

/-- A stream that fills the window is read the same way by all codecs that have read nothing yet:
    the first read leaves nothing of the old window. -/
theorem readFrame_of_full {alloc : Nat → Bool} {c₁ c₂ : MjpegCodec} {input : List UInt8}
    (halloc : alloc 0 = true) (h₁ : c₁.inputIndex = 0) (h₂ : c₂.inputIndex = 0)
    (hbehind : ∀ j, 1024 ≤ j → c₁.readBuf j = c₂.readBuf j) (hlen : 1024 ≤ input.length) :
    c₁.readFrame alloc input = c₂.readFrame alloc input := by
  apply readFrame_of_firstRead halloc
  · simp only [MjpegCodec.firstRead, h₁, h₂, if_true]
    funext j
    -- the buffer is overwritten, and what lies behind it is equal
    by_cases hj : j < 1024
    · have hget : (input.take 1024)[j]? = some input[j] := by
        rw [List.getElem?_take, if_pos hj, List.getElem?_eq_getElem (by omega)]
      rw [readBufferSize_eq]
      have hcell := fun buf => store_of_getElem? buf (o := 0) hget
      rw [Nat.zero_add] at hcell
      rw [hcell, hcell]
    · exact store_congr 0 _ (hbehind j (by omega))
  · simp only [MjpegCodec.firstRead, h₁, h₂, if_true]
  · simp only [MjpegCodec.firstRead, h₁, h₂, if_true]
  · simp only [MjpegCodec.firstRead, h₁, h₂, if_true]

/-- After a reset a full buffer hides what was in it. -/
theorem readFrame_resetInputStatus {m : Nat → UInt8} {c₁ c₂ : MjpegCodec} {input : List UInt8}
    (h₁ : Bounded m c₁.readBuf c₁.bufRead) (h₂ : Bounded m c₂.readBuf c₂.bufRead)
    (hlen : 1024 ≤ input.length) :
    c₁.resetInputStatus.readFrame (fun _ => true) input =
      c₂.resetInputStatus.readFrame (fun _ => true) input :=
  readFrame_of_full rfl rfl rfl
    (fun j hj => (h₁.behind j hj).trans (h₂.behind j hj).symm) hlen

end Ivy.Spec
