import Ivy.ForStd.Transition
import Ivy.Native.MjpegAccess
import Ivy.Spec.ReadFrameProgress

/-!
# What the frame reader looks at

A window that is searched to its end must not end in `FF`, because the test of the last byte looks
at the one behind it. And the header must not be the last two bytes of its window, because three
bytes are copied from there before the first search for the trailer. `HeaderClean` says
both, of the window and of the blocks of 1024 bytes that it is refilled with.
-/

namespace Ivy.Spec

open Ivy.Mem Ivy.Native Ivy.Lts

/-! ## The window and the stream -/

/-- The `n` cells from `p` on lie in the array, and hold the bytes that were delivered last. -/
structure WindowOf (stream : List UInt8) (buf : Nat → UInt8) (p n : Nat) (rest : List UInt8) :
    Prop where
  fits : p + n ≤ 1024
  suffix : load buf p n ++ rest <:+ stream

/-- The cell is one of the window, and this is as it should be. -/
structure ValidAccess (stream : List UInt8) (a : BufAccess) : Prop where
  base_le : a.base ≤ a.cell
  lt_base_add : a.cell < a.base + a.window.length
  fits : a.base + a.window.length ≤ 1024
  suffix : a.window ++ a.rest <:+ stream

/-- The cells lie in a window of `n` bytes at `p`. -/
def InWindow (p n : Nat) (cells : List Nat) : Prop := ∀ c ∈ cells, p ≤ c ∧ c < p + n

section

variable {stream rest : List UInt8} {buf : Nat → UInt8} {p n : Nat}

/-- Two groups of cells lie in the window if each of them does. -/
theorem inWindow_append {l₁ l₂ : List Nat} :
    InWindow p n (l₁ ++ l₂) ↔ InWindow p n l₁ ∧ InWindow p n l₂ :=
  List.forall_mem_append

/-- A run of cells lies in the window if its ends do. -/
theorem inWindow_range' {start len : Nat} (hle : p ≤ start) (hlen : start + len ≤ p + n) :
    InWindow p n (List.range' start len) := by
  intro c hc
  rw [List.mem_range'_1] at hc
  omega

/-- Accesses to one window are valid if their cells lie in it. -/
theorem WindowOf.forall_accesses_iff (hw : WindowOf stream buf p n rest) (cells : List Nat) :
    (∀ a ∈ accesses p (load buf p n) rest cells, ValidAccess stream a) ↔ InWindow p n cells := by
  simp only [accesses, List.forall_mem_map]
  constructor
  · intro h c hc
    have hvalid := h c hc
    exact ⟨hvalid.base_le, by simpa using hvalid.lt_base_add⟩
  · intro h c hc
    obtain ⟨hle, hlt⟩ := h c hc
    exact ⟨hle, by simpa using hlt, by simpa using hw.fits, hw.suffix⟩

/-- What is still to be read is the end of the stream. -/
theorem WindowOf.rest_suffix (hw : WindowOf stream buf p n rest) : rest <:+ stream :=
  (List.suffix_append _ _).trans hw.suffix

/-- A window without bytes. -/
theorem WindowOf.empty (hrest : rest <:+ stream) (hp : p ≤ 1024) :
    WindowOf stream buf p 0 rest :=
  ⟨hp, by simpa using hrest⟩

/-- Refilling from the start of the array. -/
theorem WindowOf.refill (hrest : rest <:+ stream) :
    WindowOf stream (store buf 0 (rest.take 1024)) 0 (rest.take 1024).length
      (rest.drop 1024) where
  fits := by rw [List.length_take]; omega
  suffix := by rwa [load_store, List.take_append_drop]

/-- Leaving out the first bytes. -/
theorem WindowOf.drop (hw : WindowOf stream buf p n rest) {i : Nat} (hi : i ≤ n) :
    WindowOf stream buf (p + i) (n - i) rest where
  fits := by have := hw.fits; omega
  suffix := by
    rw [← drop_load, ← List.drop_append_of_le_length (by simpa using hi)]
    exact (List.drop_suffix i _).trans hw.suffix

/-- The window behind `i` bytes; there may be less. -/
theorem WindowOf.sub {bufRead : Int} (hw : WindowOf stream buf p bufRead.toNat rest) {i : Nat}
    (hi : p + i ≤ 1024) : WindowOf stream buf (p + i) (bufRead - i).toNat rest := by
  by_cases hle : i ≤ bufRead.toNat
  · have hdrop := hw.drop hle
    rwa [show bufRead.toNat - i = (bufRead - i).toNat by omega] at hdrop
  · rw [show (bufRead - i).toNat = 0 by omega]
    exact .empty hw.rest_suffix hi

/-- The window behind the first `i` bytes of the array. -/
theorem WindowOf.behind {bufRead : Int} (hw : WindowOf stream buf 0 bufRead.toNat rest) {i : Nat}
    (hi : i ≤ 1024) : WindowOf stream buf i (bufRead - i).toNat rest := by
  have hsub := hw.sub (i := i) (by omega)
  rwa [Nat.zero_add] at hsub

end

section

variable {stream : List UInt8} {s : TrailerScan}

/-- Behind a round of the copy loop the window lies at the start of the array again. -/
theorem advance_windowOf (hw : WindowOf stream s.buf s.p s.bufRead.toNat s.input)
    (found : Bool) (i : Nat) :
    WindowOf stream (s.advance found i).buf 0 (s.advance found i).bufRead.toNat
      (s.advance found i).input := by
  have hfits := hw.fits
  unfold TrailerScan.advance
  dsimp only
  split
  · rename_i ho
    -- what is left of the window comes first, then what is read
    have hleft := hw.sub (i := i) (by omega)
    have hlen : (load s.buf (s.p + i) (s.bufRead - i).toNat).length = (s.bufRead - i).toNat :=
      length_load ..
    have hload := load_store_store s.buf (load s.buf (s.p + i) (s.bufRead - i).toNat)
      (s.input.take (1024 - (s.bufRead - i).toNat))
    rw [hlen] at hload
    have hread : ((s.input.take (1024 - (s.bufRead - i).toNat)).length +
        (s.bufRead - i) : Int).toNat = (s.bufRead - i).toNat +
          (s.input.take (1024 - (s.bufRead - i).toNat)).length := by omega
    dsimp only [readBufferSize_eq]
    rw [hread]
    refine ⟨?_, ?_⟩
    · rw [List.length_take]; omega
    · rw [hload, List.append_assoc, List.take_append_drop]
      exact hleft.suffix
  · -- nothing is left, and the window is read anew
    exact .refill hw.rest_suffix

end

/-! ## One search -/

section

variable {buf : Nat → UInt8} {p n : Nat} {second : UInt8}

/-- Inside the window the test for a marker is one of the bytes of the window. -/
theorem markerAt_load {i : Nat} (hi : i + 1 < n) :
    markerAt buf second (p + i) = isMarker (load buf p n) second i := by
  simp [markerAt, isMarker, getElem?_load buf (show i < n by omega), getElem?_load buf hi,
    Nat.add_assoc]

/-- The last byte of the window. -/
theorem getLast?_load (hn : 0 < n) : (load buf p n).getLast? = some (buf (p + (n - 1))) := by
  rw [List.getLast?_eq_getElem?, length_load, getElem?_load buf (by omega)]

/-- No marker begins at the last byte of the window. -/
theorem isMarker_load_last {i : Nat} (hi : i + 1 = n) :
    isMarker (load buf p n) second i = false := by
  apply Bool.eq_false_iff.mpr
  intro hm
  have hlt := isMarker_lt hm
  rw [length_load] at hlt
  omega

/-- The search comes out as one of the bytes of the window, unless it ends at an `FF`. -/
theorem markerScan_eq_findMarker {start : Nat}
    (h : (findMarker (load buf p n) second start).isSome ∨ n ≤ start ∨
      (load buf p n).getLast? ≠ some 0xFF) :
    markerScan buf p second start n = findMarker (load buf p n) second start := by
  cases hfind : findMarker (load buf p n) second start with
  | some j =>
    -- a marker in the window: all bytes up to it are looked at with their successors
    obtain ⟨hle, hm, hno⟩ := findMarker_eq_some.mp hfind
    have hlt := isMarker_lt hm
    rw [length_load] at hlt
    refine markerScan_eq_some.mpr ⟨hle, by omega, (markerAt_load hlt).trans hm, ?_⟩
    intro j' hj' hj
    rw [markerAt_load (by omega : j' + 1 < n)]
    exact hno j' hj' hj
  | none =>
    have hno := findMarker_eq_none.mp hfind
    refine markerScan_eq_none.mpr fun j hj hlt => ?_
    by_cases hlast : j + 1 < n
    · rw [markerAt_load hlast]
      exact hno j hj
    · -- the last byte is not `FF`
      rw [hfind] at h
      have hbyte : (load buf p n).getLast? ≠ some 0xFF := by
        rcases h with h | h | h
        · exact absurd h (by simp)
        · omega
        · exact h
      rw [getLast?_load (by omega), show n - 1 = j by omega] at hbyte
      simp only [ne_eq, Option.some.injEq] at hbyte
      simp [markerAt, hbyte]

/-- A search looks at the window only if it meets the marker or does not end at an `FF`. -/
theorem scanCells_inWindow_iff (i m : Nat) (hn : i + m = n) :
    InWindow p n (scanCells buf p second i m) ↔
      (findMarker (load buf p n) second i).isSome ∨ m = 0 ∨
        (load buf p n).getLast? ≠ some 0xFF := by
  rw [findMarker, length_load, show n - i = m by omega]
  -- from byte to byte; only the test of the last byte can look behind the window
  induction m generalizing i with
  | zero => simp [scanCells, InWindow]
  | succ m ih =>
    rw [scanCells, inWindow_append, List.range'_succ, List.find?_cons]
    by_cases hlast : m = 0
    · -- the last byte of the window
      subst hlast
      rw [isMarker_load_last (by omega), getLast?_load (by omega), show n - 1 = i by omega]
      by_cases hff : buf (p + i) = 0xFF
      · -- behind the `FF` the next cell is looked at, which is not one of the window
        have hout : ¬ InWindow p n (markerCells buf (p + i)) := by
          intro h
          have := (h (p + i + 1) (by simp [markerCells, hff])).2
          omega
        simp [hff, hout]
      · have hin : InWindow p n (markerCells buf (p + i)) := by
          simp only [markerCells, beq_iff_eq, hff, if_false]
          intro c hc
          have := List.mem_singleton.mp hc
          omega
        have hrest : ∀ b : Bool, InWindow p n
            (if b then [] else scanCells buf p second (i + 1) 0) := by
          intro b
          cases b <;> simp [scanCells, InWindow]
        simp [hff, hin, hrest]
    · -- inside the window both cells of the test lie in it
      have hin : InWindow p n (markerCells buf (p + i)) := by
        intro c hc
        unfold markerCells at hc
        split at hc <;> simp only [List.mem_cons, List.not_mem_nil, or_false] at hc <;> omega
      rw [markerAt_load (by omega : i + 1 < n)]
      cases hm : isMarker (load buf p n) second i with
      | true => simpa [InWindow] using hin
      | false =>
        have hrest := ih (i + 1) (by omega)
        simp only [Bool.false_eq_true, if_false, hin, true_and, hrest, hlast, Nat.succ_ne_zero,
          false_or]

end

/-! ## The condition -/

def blocksAux : Nat → List UInt8 → List (List UInt8)
  | 0, _ => []
  | fuel + 1, l => if l.isEmpty then [] else l.take 1024 :: blocksAux fuel (l.drop 1024)

/-- The blocks of 1024 bytes that a window is refilled with. -/
def blocks (l : List UInt8) : List (List UInt8) := blocksAux l.length l

/-- More rounds than bytes find no more blocks. -/
theorem blocksAux_eq {l : List UInt8} {fuel : Nat} (h : l.length ≤ fuel) :
    blocksAux fuel l = blocks l := by
  induction fuel using Nat.strongRecOn generalizing l with
  -- the rest is shorter by a block, so that both counts of rounds are enough for it
  | ind fuel ih =>
    cases l with
    | nil => cases fuel <;> rfl
    | cons x xs =>
      cases fuel with
      | zero => simp at h
      | succ fuel =>
        have hlen : ((x :: xs).drop 1024).length ≤ xs.length := by
          simp only [List.length_drop, List.length_cons]; omega
        simp only [List.length_cons, Nat.add_le_add_iff_right] at h
        show (x :: xs).take 1024 :: blocksAux fuel ((x :: xs).drop 1024) =
          (x :: xs).take 1024 :: blocksAux xs.length ((x :: xs).drop 1024)
        by_cases hfuel : xs.length = fuel
        · rw [hfuel]
        · rw [ih fuel (by omega) (by omega), ih xs.length (by omega) hlen]

/-- The first block and the blocks behind it. -/
theorem blocks_of_ne_nil {l : List UInt8} (h : l ≠ []) :
    blocks l = l.take 1024 :: blocks (l.drop 1024) := by
  cases l with
  | nil => exact absurd rfl h
  | cons x xs =>
    have hlen : ((x :: xs).drop 1024).length ≤ xs.length := by
      simp only [List.length_drop, List.length_cons]; omega
    rw [← blocksAux_eq hlen]
    rfl

/-- The search for the trailer stays in its windows `w :: bs`, from round `k` on: behind `len`
    bytes of the frame the last of which is `last`, and from offset `start` of the first window.
    It ends with a trailer split over two windows, with one inside a window, with the
    last window or without memory. -/
def TrailerClean (alloc : Nat → Bool) :
    Nat → Nat → Option UInt8 → Nat → List (List UInt8) → Prop
  | _, _, _, _, [] => True
  | k, len, last, start, w :: bs =>
    (last = some 0xFF ∧ w.head? = some 0xD9) ∨
    (findMarker w 0xD9 start).isSome ∨
    start ≤ w.length ∧ (start = w.length ∨ w.getLast? ≠ some 0xFF) ∧
      (mjpegDecoderBufSize < len + w.length ∧ alloc k = false ∨
        TrailerClean alloc (k + 1) (len + w.length) w.getLast? 0 bs)

/-- The search for the header stays in its windows, and so does the search for the trailer
    behind it. -/
def HeaderClean (alloc : Nat → Bool) : List (List UInt8) → Prop
  | [] => True
  | w :: bs =>
    match findMarker w 0xD8 0 with
    | some h => TrailerClean alloc 1 0 none 3 (w.drop h :: bs)
    | none => w.getLast? ≠ some 0xFF ∧ HeaderClean alloc bs

/-! ## The copy loop -/

section

variable {stream : List UInt8} {alloc : Nat → Bool} {s : TrailerScan}

/-- Behind the trailer nothing is looked at. -/
theorem trailerAccesses_of_found (fuel k : Nat) (hf : s.found = true) :
    trailerAccesses alloc fuel k s = [] := by
  cases fuel <;> simp [trailerAccesses, hf]

/-- An empty window is not looked at. -/
theorem trailerAccesses_of_empty (fuel k : Nat) (h : ¬ 0 < s.bufRead) :
    trailerAccesses alloc fuel k s = [] := by
  cases fuel <;> simp [trailerAccesses, h]

/-- A round looks at its window, copies, and the loop goes on. -/
theorem trailerAccesses_valid_iff (fuel k : Nat)
    (hw : WindowOf stream s.buf s.p s.bufRead.toNat s.input)
    (hpos : 0 < s.bufRead) (hfound : s.found = false) :
    (∀ a ∈ trailerAccesses alloc (fuel + 1) k s, ValidAccess stream a) ↔
      InWindow s.p s.bufRead.toNat s.searchCells ∧
        (s.data.length + s.search.2 > s.dataSize ∧ alloc k = false ∨
          InWindow s.p s.bufRead.toNat (s.copyCells s.search.2) ∧
            ∀ a ∈ trailerAccesses alloc fuel (k + 1) (s.advance s.search.1 s.search.2),
              ValidAccess stream a) := by
  rw [trailerAccesses, if_pos ⟨hpos, hfound⟩, List.forall_mem_append, TrailerScan.stepAccesses,
    hw.forall_accesses_iff, inWindow_append]
  by_cases hfail : s.data.length + s.search.2 > s.dataSize ∧ alloc k = false
  · -- without memory the call ends before it copies
    simp [TrailerScan.step, hfail, InWindow]
  · simp only [TrailerScan.step, hfail, if_false, false_or, and_assoc]

/-- A search that finds the trailer in its window looks at nothing else, and neither does the
    copy. -/
theorem trailerAccesses_valid_of_found (alloc : Nat → Bool) (fuel k : Nat)
    (hw : WindowOf stream s.buf s.p s.bufRead.toNat s.input) (hpos : 0 < s.bufRead)
    (hfound : s.found = false) (hsearch : s.search.1 = true) (hle : s.search.2 ≤ s.bufRead.toNat)
    (hcells : InWindow s.p s.bufRead.toNat s.searchCells) :
    ∀ a ∈ trailerAccesses alloc (fuel + 1) k s, ValidAccess stream a := by
  rw [trailerAccesses_valid_iff fuel k hw hpos hfound]
  refine ⟨hcells, .inr ⟨?_, ?_⟩⟩
  · apply inWindow_append.mpr
    exact ⟨inWindow_range' (Nat.le_refl _) (by omega), inWindow_range' (by omega) (by omega)⟩
  · rw [trailerAccesses_of_found _ _ ((advance_found ..).trans hsearch)]
    exact fun a ha => absurd ha List.not_mem_nil

/-- The copy loop, entered at a header or with a new window. -/
structure CopyState (stream : List UInt8) (s : TrailerScan) : Prop where
  window : WindowOf stream s.buf s.p s.bufRead.toNat s.input
  found : s.found = false
  dataSize : s.dataSize = max mjpegDecoderBufSize s.data.length
  start : s.i = 0 ∨ s.i = 3 ∧ s.data = []

/-- A round that copies the whole window leaves a window with the next block. -/
theorem advance_all (found : Bool) {i : Nat} (hi : s.bufRead ≤ i) :
    s.advance found i =
      { buf := store s.buf 0 (s.input.take 1024), p := 0
        bufRead := (s.input.take 1024).length, i := 0, data := s.data ++ load s.buf s.p i
        dataSize := max s.dataSize (s.data.length + i), found
        inputIndex := s.inputIndex + UInt32.ofNat (s.input.take 1024).length
        input := s.input.drop 1024 } := by
  -- nothing is left to be moved to the front
  have ho : ¬ 0 < s.bufRead - i := by omega
  simp only [TrailerScan.advance, ho, if_false, readBufferSize_eq]

/-- Behind a window that was copied the loop goes on with a new one. -/
theorem CopyState.advance_all (hs : CopyState stream s) (hpos : 0 < s.bufRead) :
    CopyState stream (s.advance false s.bufRead.toNat) := by
  have hdata := hs.dataSize
  rw [Spec.advance_all false (by omega)]
  refine ⟨.refill hs.window.rest_suffix, rfl, ?_, .inl rfl⟩
  simp only [List.length_append, length_load]
  omega

/-- The first byte of the window. -/
theorem head?_load (buf : Nat → UInt8) (p : Nat) {n : Nat} (hn : 0 < n) :
    (load buf p n).head? = some (buf p) := by
  rw [List.head?_eq_getElem?, getElem?_load buf hn, Nat.add_zero]

/-- Without a split trailer the window is searched. -/
theorem searchCells_inWindow_iff (hpos : 0 < s.bufRead)
    (hsplit : ¬ (s.data.getLast? = some 0xFF ∧ s.buf s.p = 0xD9)) :
    InWindow s.p s.bufRead.toNat s.searchCells ↔
      InWindow s.p s.bufRead.toNat (scanCells s.buf s.p 0xD9 s.i (s.bufRead.toNat - s.i)) := by
  unfold TrailerScan.searchCells
  split
  · rename_i hff
    -- the first cell is looked at for the second half of a trailer, then the search begins
    rw [if_neg fun hd9 => hsplit ⟨hff, hd9⟩, ← List.singleton_append, inWindow_append]
    refine and_iff_right_of_imp fun _ c hc => ?_
    have := List.mem_singleton.mp hc
    omega
  · rfl

section

variable (hs : CopyState stream s) (hpos : 0 < s.bufRead)
  (hsplit : ¬ (s.data.getLast? = some 0xFF ∧ s.buf s.p = 0xD9))

include hs hpos hsplit

/-- The trailer lies in the window. -/
theorem CopyState.valid_of_some (alloc : Nat → Bool) (fuel k : Nat) {j : Nat}
    (hfind : findMarker (load s.buf s.p s.bufRead.toNat) 0xD9 s.i = some j) :
    ∀ a ∈ trailerAccesses alloc (fuel + 1) k s, ValidAccess stream a := by
  obtain ⟨hle, hm, -⟩ := findMarker_eq_some.mp hfind
  have hlt := isMarker_lt hm
  rw [length_load] at hlt
  -- the search ends at the trailer, which lies in the window
  have hsome : (findMarker (load s.buf s.p s.bufRead.toNat) 0xD9 s.i).isSome := by simp [hfind]
  have hsearch : s.search = (true, j + 2) := by
    rw [TrailerScan.search, if_neg hsplit, markerScan_eq_findMarker (.inl hsome), hfind]
  have hcells := (scanCells_inWindow_iff s.i (s.bufRead.toNat - s.i) (by omega)).mpr (.inl hsome)
  exact trailerAccesses_valid_of_found alloc fuel k hs.window hpos hs.found (by rw [hsearch])
    (by rw [hsearch]; dsimp only; omega) ((searchCells_inWindow_iff hpos hsplit).mpr hcells)

/-- The window is searched to its end: it must hold the bytes that are copied unseen, and must
    not end in an `FF` that is seen. -/
theorem CopyState.clean_of_valid (fuel k : Nat)
    (hfind : findMarker (load s.buf s.p s.bufRead.toNat) 0xD9 s.i = none)
    (hvalid : ∀ a ∈ trailerAccesses alloc (fuel + 1) k s, ValidAccess stream a) :
    s.i ≤ s.bufRead.toNat ∧
      (s.i = s.bufRead.toNat ∨ (load s.buf s.p s.bufRead.toNat).getLast? ≠ some 0xFF) := by
  obtain ⟨hcells, hcopy⟩ :=
    (trailerAccesses_valid_iff fuel k hs.window hpos hs.found).mp hvalid
  -- are the bytes that are copied unseen in the window?
  by_cases hle : s.i ≤ s.bufRead.toNat
  · have hscan := (scanCells_inWindow_iff s.i (s.bufRead.toNat - s.i) (by omega)).mp
      ((searchCells_inWindow_iff hpos hsplit).mp hcells)
    rw [hfind] at hscan
    rcases hscan with hscan | hscan | hscan
    · exact absurd hscan (by simp)
    · exact ⟨hle, .inl (by omega)⟩
    · exact ⟨hle, .inr hscan⟩
  · -- the window behind the header is shorter than the three bytes
    obtain ⟨hi, hdata⟩ : s.i = 3 ∧ s.data = [] := hs.start.resolve_left (by omega)
    have hsearch : s.search.2 = 3 := by
      rw [TrailerScan.search, if_neg hsplit, markerScan_eq_findMarker (.inr (.inl (by omega))),
        hfind]
      dsimp only
      omega
    have hsize := hs.dataSize
    simp only [hdata, List.length_nil, mjpegDecoderBufSize] at hsize
    rw [hsearch, hdata, List.length_nil] at hcopy
    -- three bytes fit without more memory, and the third one is not in the window
    rcases hcopy with hcopy | ⟨hcopy, -⟩
    · omega
    · have := hcopy (s.p + s.bufRead.toNat)
        (List.mem_append_left _ (List.mem_range'_1.mpr (by omega)))
      omega

/-- Then the whole window is copied. -/
theorem CopyState.valid_iff_of_none (fuel k : Nat)
    (hfind : findMarker (load s.buf s.p s.bufRead.toNat) 0xD9 s.i = none)
    (hle : s.i ≤ s.bufRead.toNat)
    (hlast : s.i = s.bufRead.toNat ∨ (load s.buf s.p s.bufRead.toNat).getLast? ≠ some 0xFF) :
    (∀ a ∈ trailerAccesses alloc (fuel + 1) k s, ValidAccess stream a) ↔
      mjpegDecoderBufSize < s.data.length + s.bufRead.toNat ∧ alloc k = false ∨
        ∀ a ∈ trailerAccesses alloc fuel (k + 1) (s.advance false s.bufRead.toNat),
          ValidAccess stream a := by
  have hsearch : s.search = (false, s.bufRead.toNat) := by
    rw [TrailerScan.search, if_neg hsplit,
      markerScan_eq_findMarker (.inr (hlast.imp (fun h => by omega) id)), hfind]
    show (false, max s.i s.bufRead.toNat) = _
    rw [Nat.max_eq_right hle]
  have hcells : InWindow s.p s.bufRead.toNat s.searchCells := by
    rw [searchCells_inWindow_iff hpos hsplit, scanCells_inWindow_iff _ _ (by omega)]
    exact .inr (hlast.imp (fun h => by omega) id)
  have hcopy : InWindow s.p s.bufRead.toNat (s.copyCells s.bufRead.toNat) :=
    inWindow_append.mpr
      ⟨inWindow_range' (Nat.le_refl _) (by omega), inWindow_range' (by omega) (by omega)⟩
  -- the block has its first size, or is exactly as long as the frame so far
  have hsize : s.data.length + s.bufRead.toNat > s.dataSize ↔
      mjpegDecoderBufSize < s.data.length + s.bufRead.toNat := by
    rw [hs.dataSize]
    omega
  rw [trailerAccesses_valid_iff fuel k hs.window hpos hs.found, hsearch]
  simp only [hcells, hcopy, true_and, hsize]

end

/-- The trailer is split over two windows: nothing is copied. -/
theorem CopyState.valid_of_split (hs : CopyState stream s) (hpos : 0 < s.bufRead)
    (hsplit : s.data.getLast? = some 0xFF ∧ s.buf s.p = 0xD9) (alloc : Nat → Bool)
    (fuel k : Nat) : ∀ a ∈ trailerAccesses alloc (fuel + 1) k s, ValidAccess stream a := by
  -- at a header nothing has been copied, so that no `FF` comes before it
  have hi : s.i = 0 := by
    rcases hs.start with hi | ⟨-, hnil⟩
    · exact hi
    · rw [hnil] at hsplit
      exact nomatch hsplit.1
  have hsearch : s.search = (true, 0) := by rw [TrailerScan.search, if_pos hsplit, hi]
  have hcells : InWindow s.p s.bufRead.toNat s.searchCells := by
    rw [TrailerScan.searchCells, if_pos hsplit.1, if_pos hsplit.2]
    intro c hc
    have := List.mem_singleton.mp hc
    omega
  exact trailerAccesses_valid_of_found alloc fuel k hs.window hpos hs.found (by rw [hsearch])
    (by rw [hsearch]; omega) hcells

/-- Behind a window that was copied the search goes on in the next block. -/
theorem trailerClean_advance (hpos : 0 < s.bufRead) (hinput : s.input ≠ []) (alloc : Nat → Bool)
    (k : Nat) :
    let s' := s.advance false s.bufRead.toNat
    TrailerClean alloc k s'.data.length s'.data.getLast? s'.i
        (load s'.buf s'.p s'.bufRead.toNat :: blocks s'.input) ↔
      TrailerClean alloc k (s.data.length + s.bufRead.toNat)
        (load s.buf s.p s.bufRead.toNat).getLast? 0 (blocks s.input) := by
  -- the last byte of the frame so far is that of the window
  have hwindow : load s.buf s.p s.bufRead.toNat ≠ [] := by
    intro hnil
    have hzero := congrArg List.length hnil
    rw [length_load, List.length_nil] at hzero
    omega
  rw [Spec.advance_all false (by omega), blocks_of_ne_nil hinput]
  simp only [Int.toNat_natCast, load_store, List.length_append, length_load,
    List.getLast?_append_of_ne_nil _ hwindow]

/-- The copy loop looks only at its windows exactly if they are clean. -/
theorem CopyState.valid_iff (alloc : Nat → Bool) (fuel k : Nat) (hs : CopyState stream s)
    (hpos : 0 < s.bufRead) (hfuel : s.input.length < fuel) :
    (∀ a ∈ trailerAccesses alloc fuel k s, ValidAccess stream a) ↔
      TrailerClean alloc k s.data.length s.data.getLast? s.i
        (load s.buf s.p s.bufRead.toNat :: blocks s.input) := by
  induction fuel generalizing k s with
  | zero => omega
  | succ fuel ih =>
    rw [TrailerClean, head?_load _ _ (by omega), Option.some.injEq, length_load]
    -- the cases of `TrailerClean`, one after the other
    by_cases hsplit : s.data.getLast? = some 0xFF ∧ s.buf s.p = 0xD9
    · exact iff_of_true (hs.valid_of_split hpos hsplit alloc fuel k) (.inl hsplit)
    cases hfind : findMarker (load s.buf s.p s.bufRead.toNat) 0xD9 s.i with
    | some j =>
      have hvalid := hs.valid_of_some hpos hsplit alloc fuel k hfind
      exact iff_of_true hvalid (.inr (.inl rfl))
    | none =>
      simp only [hsplit, Option.isSome_none, Bool.false_eq_true, false_or]
      by_cases hclean : s.i ≤ s.bufRead.toNat ∧ (s.i = s.bufRead.toNat ∨
          (load s.buf s.p s.bufRead.toNat).getLast? ≠ some 0xFF)
      · obtain ⟨hle, hlast⟩ := hclean
        rw [hs.valid_iff_of_none hpos hsplit fuel k hfind hle hlast]
        simp only [hle, hlast, true_and]
        apply or_congr_right
        have heq := Spec.advance_all (s := s) false (i := s.bufRead.toNat) (by omega)
        by_cases hinput : s.input = []
        · -- the stream is used up
          rw [heq, trailerAccesses_of_empty _ _ (by simp [hinput]), hinput]
          simp [blocks, blocksAux, TrailerClean]
        · have hlen : 0 < s.input.length := List.length_pos_iff.mpr hinput
          rw [ih (k + 1) (hs.advance_all hpos) (by rw [heq]; simp; omega)
            (by rw [heq]; simp; omega)]
          exact trailerClean_advance hpos hinput alloc (k + 1)
      · -- the round looks or copies behind the window
        refine iff_of_false (fun hvalid => ?_) fun h => hclean ⟨h.1, h.2.1⟩
        exact hclean (hs.clean_of_valid hpos hsplit fuel k hfind hvalid)

end

/-! ## The header search -/

section

variable {stream : List UInt8} {alloc : Nat → Bool}

/-- The accesses of a call behind the first read: the header search from a window on, then the
    copy loop. -/
def ValidFrom (stream : List UInt8) (alloc : Nat → Bool) (c : MjpegCodec) (fuel : Nat)
    (buf : Nat → UInt8) (bufRead : Int) (i : Nat) (input : List UInt8) : Prop :=
  (∀ a ∈ headerAccesses fuel buf bufRead input, ValidAccess stream a) ∧
    let h := headerLoop fuel buf bufRead i input
    (0 < h.bufRead - h.i →
      ∀ a ∈ trailerAccesses alloc (h.input.length + 2) 1 (c.copyStart h), ValidAccess stream a)

/-- An empty window is not looked at. -/
theorem validFrom_empty (c : MjpegCodec) (fuel : Nat) (buf : Nat → UInt8) (i : Nat)
    (input : List UInt8) {bufRead : Int} (hread : ¬ 0 < bufRead) :
    ValidFrom stream alloc c fuel buf bufRead i input := by
  have hloop : headerLoop fuel buf bufRead i input = ⟨false, i, buf, bufRead, input⟩ := by
    cases fuel with
    | zero => rfl
    | succ fuel => exact if_neg hread
  have haccess : headerAccesses fuel buf bufRead input = [] := by
    cases fuel with
    | zero => rfl
    | succ fuel => exact if_neg hread
  rw [ValidFrom, hloop, haccess]
  exact ⟨fun a ha => absurd ha List.not_mem_nil, fun hpos => by dsimp only at hpos; omega⟩

/-- The copy loop begins with an empty frame at the header. -/
theorem copyStart_copyState (c : MjpegCodec) {h : HeaderScan}
    (hw : WindowOf stream h.buf h.i (h.bufRead - h.i).toNat h.input) :
    CopyState stream (c.copyStart h) where
  window := hw
  found := rfl
  dataSize := (Nat.max_eq_left (Nat.zero_le _)).symm
  start := .inr ⟨rfl, rfl⟩

/-- The copy loop is entered at the header that lies in the window. -/
theorem copyStart_valid_iff (alloc : Nat → Bool) (c : MjpegCodec) {buf : Nat → UInt8}
    {bufRead : Int} {input : List UInt8} (hw : WindowOf stream buf 0 bufRead.toNat input) {j : Nat}
    (hfind : findMarker (load buf 0 bufRead.toNat) 0xD8 0 = some j) :
    0 < bufRead - j ∧
      ((∀ a ∈ trailerAccesses alloc (input.length + 2) 1
          (c.copyStart ⟨true, j, buf, bufRead, input⟩), ValidAccess stream a) ↔
        TrailerClean alloc 1 0 none 3 ((load buf 0 bufRead.toNat).drop j :: blocks input)) := by
  obtain ⟨-, hm, -⟩ := findMarker_eq_some.mp hfind
  have hlt := isMarker_lt hm
  have hfits := hw.fits
  rw [length_load] at hlt
  have hin : 0 < bufRead - (j : Int) := by omega
  have hcopy := copyStart_copyState c (h := ⟨true, j, buf, bufRead, input⟩)
    (hw.behind (show j ≤ 1024 by omega))
  have hiff := hcopy.valid_iff alloc (input.length + 2) 1 hin
    (by simp only [MjpegCodec.copyStart]; omega)
  -- the window of the copy loop is that of the search, without what lies before the header
  have hwindow : load buf j (bufRead - j).toNat = (load buf 0 bufRead.toNat).drop j := by
    rw [drop_load, Nat.zero_add, show (bufRead - j).toNat = bufRead.toNat - j by omega]
  rw [← hwindow]
  exact ⟨hin, hiff⟩

/-- The searches look only at their windows exactly if these are clean. -/
theorem validFrom_iff (c : MjpegCodec) (fuel i : Nat) {buf : Nat → UInt8} {bufRead : Int}
    {input : List UInt8} (hw : WindowOf stream buf 0 bufRead.toNat input) (hpos : 0 < bufRead)
    (hfuel : input.length < fuel) :
    ValidFrom stream alloc c fuel buf bufRead i input ↔
      HeaderClean alloc (load buf 0 bufRead.toNat :: blocks input) := by
  induction fuel generalizing buf bufRead i input with
  | zero => omega
  | succ fuel ih =>
    -- one window of the search; the next one is the induction
    have hscan : InWindow 0 bufRead.toNat (scanCells buf 0 0xD8 0 bufRead.toNat) ↔ _ :=
      scanCells_inWindow_iff 0 bufRead.toNat (Nat.zero_add _)
    rw [HeaderClean, ValidFrom, headerAccesses, headerLoop, if_pos hpos, if_pos hpos,
      List.forall_mem_append, hw.forall_accesses_iff, hscan]
    cases hfind : findMarker (load buf 0 bufRead.toNat) 0xD8 0 with
    | some j =>
      -- the header lies in the window, and the copy loop is entered there
      obtain ⟨hin, hiff⟩ := copyStart_valid_iff alloc c hw hfind
      rw [markerScan_eq_findMarker (.inl (by simp [hfind])), hfind]
      simp only [Option.isSome_some, true_or, List.not_mem_nil, false_imp_iff, implies_true,
        and_self, true_and, hin, true_imp_iff, hiff]
    | none =>
      by_cases hlast : (load buf 0 bufRead.toNat).getLast? = some 0xFF
      · -- the test of the last byte looks behind the window
        have hne : bufRead.toNat ≠ 0 := by omega
        simp [hlast, hne]
      · rw [markerScan_eq_findMarker (.inr (.inr hlast)), hfind]
        simp only [Option.isSome_none, Bool.false_eq_true, ne_eq, hlast, not_false_eq_true,
          or_true, true_and]
        have hnext : WindowOf stream (store buf 0 (input.take 1024)) 0
            ((input.take 1024).length : Int).toNat (input.drop 1024) := .refill hw.rest_suffix
        by_cases hinput : input = []
        · subst hinput
          exact iff_of_true (validFrom_empty c fuel _ _ _ (by simp)) trivial
        · have hlen : 0 < input.length := List.length_pos_iff.mpr hinput
          have hrest := ih bufRead.toNat hnext (by rw [List.length_take]; omega)
            (by rw [List.length_drop]; omega)
          rw [Int.toNat_natCast, load_store] at hrest
          rw [blocks_of_ne_nil hinput]
          exact hrest

end

/-! ## Calls -/

/-- The window and the blocks that a call may have to search. -/
def searched (c : MjpegCodec) (input : List UInt8) : List (List UInt8) :=
  if c.inputIndex = 0 then blocks input
  else if 0 < c.bufRead then load c.readBuf 0 c.bufRead.toNat :: blocks input
  else []

section

variable {stream : List UInt8} {alloc : Nat → Bool} {c : MjpegCodec} {input : List UInt8}

/-- The first read leaves a window at the start of the array. -/
theorem firstRead_windowOf (hw : WindowOf stream c.readBuf 0 c.bufRead.toNat input) :
    WindowOf stream (c.firstRead input).1.readBuf 0 (c.firstRead input).1.bufRead.toNat
      (c.firstRead input).2 := by
  unfold MjpegCodec.firstRead
  split
  · exact .refill hw.rest_suffix
  · exact hw

/-- What is searched is the window after the first read, with the blocks behind it. -/
theorem searched_eq :
    searched c input =
      if 0 < (c.firstRead input).1.bufRead then
        load (c.firstRead input).1.readBuf 0 (c.firstRead input).1.bufRead.toNat ::
          blocks (c.firstRead input).2
      else [] := by
  by_cases hindex : c.inputIndex = 0
  · -- the beginning of a stream: the first block is read
    have hread : (c.firstRead input).1.bufRead = ((input.take 1024).length : Int) := by
      simp [MjpegCodec.firstRead, hindex]
    have hbuf : (c.firstRead input).1.readBuf = store c.readBuf 0 (input.take 1024) := by
      simp [MjpegCodec.firstRead, hindex]
    have hrest : (c.firstRead input).2 = input.drop 1024 := by
      simp [MjpegCodec.firstRead, hindex]
    rw [searched, if_pos hindex, hread, hbuf, hrest, Int.toNat_natCast, load_store]
    by_cases hinput : input = []
    · subst hinput
      rfl
    · have hlen : 0 < input.length := List.length_pos_iff.mpr hinput
      rw [if_pos (by rw [List.length_take]; omega), blocks_of_ne_nil hinput]
  · have hfirst : c.firstRead input = (c, input) := if_neg hindex
    rw [searched, if_neg hindex, hfirst]

/-- A list that is there only under a condition. -/
theorem forall_mem_ite_nil {α : Type} {P : α → Prop} {q : Prop} [Decidable q] {l : List α} :
    (∀ a ∈ if q then l else [], P a) ↔ (q → ∀ a ∈ l, P a) := by
  split
  · rename_i hq
    exact ⟨fun h _ => h, fun h => h hq⟩
  · rename_i hq
    exact iff_of_true (fun a ha => absurd ha List.not_mem_nil) fun h => absurd h hq

/-- A call looks only at its windows exactly if they are clean, or it gets no memory. -/
theorem readFrameAccesses_valid_iff
    (hw : WindowOf stream c.readBuf 0 c.bufRead.toNat input) :
    (∀ a ∈ c.readFrameAccesses alloc input, ValidAccess stream a) ↔
      (alloc 0 = true → HeaderClean alloc (searched c input)) := by
  by_cases halloc : alloc 0 = false
  · simp [MjpegCodec.readFrameAccesses, halloc]
  -- the first read itself looks at nothing
  have hcall : (∀ a ∈ c.readFrameAccesses alloc input, ValidAccess stream a) ↔
      ValidFrom stream alloc (c.firstRead input).1 ((c.firstRead input).2.length + 2)
        (c.firstRead input).1.readBuf (c.firstRead input).1.bufRead 0
        (c.firstRead input).2 := by
    rw [MjpegCodec.readFrameAccesses, if_neg halloc, List.forall_mem_append, forall_mem_ite_nil]
    rfl
  rw [hcall, forall_prop_of_true (by simpa using halloc), searched_eq]
  by_cases hpos : 0 < (c.firstRead input).1.bufRead
  · rw [if_pos hpos]
    exact validFrom_iff _ _ 0 (firstRead_windowOf hw) hpos (by omega)
  · rw [if_neg hpos]
    exact iff_of_true (validFrom_empty _ _ _ _ _ hpos) trivial

/-! ## The window after a call -/

/-- The header search leaves the window behind the header. -/
theorem headerLoop_windowOf (fuel i : Nat) {buf : Nat → UInt8} {bufRead : Int}
    (hw : WindowOf stream buf 0 bufRead.toNat input) (hi : i ≤ 1024) :
    WindowOf stream (headerLoop fuel buf bufRead i input).buf
      (headerLoop fuel buf bufRead i input).i
      ((headerLoop fuel buf bufRead i input).bufRead -
        (headerLoop fuel buf bufRead i input).i).toNat
      (headerLoop fuel buf bufRead i input).input := by
  induction fuel generalizing buf bufRead i input with
  | zero => exact hw.behind hi
  | succ fuel ih =>
    unfold headerLoop
    split
    · split
      · rename_i j hscan
        have hlt := (markerScan_eq_some.mp hscan).2.1
        have hfits := hw.fits
        exact hw.behind (show j ≤ 1024 by omega)
      · have hfits := hw.fits
        exact ih bufRead.toNat (.refill hw.rest_suffix) (by omega)
    · exact hw.behind hi

/-- The copy loop leaves a window at the start of the array, with the trailer or without. -/
theorem searchTrailer_windowOf {h : HeaderScan} {r : TrailerScan}
    (hs : CopyState stream (c.copyStart h)) (hpos : 0 < h.bufRead - h.i)
    (hr : c.searchTrailer alloc h = .ok r ∨ c.searchTrailer alloc h = .error r) :
    WindowOf stream r.buf 0 r.bufRead.toNat r.input := by
  have hfits := hs.window.fits
  unfold MjpegCodec.searchTrailer at hr
  have hle : h.bufRead - h.i ≤ 1024 := by
    simp only [MjpegCodec.copyStart] at hfits
    omega
  -- the first round starts at the header, the others at the start of the array
  rw [trailerLoop_copyStart alloc _ _ hpos hle] at hr
  -- the invariant of the loop: a window at the start of the array
  refine (trailerLoop_preserves (P := fun s => s.p = 0 ∧
    WindowOf stream s.buf 0 s.bufRead.toNat s.input) alloc ?_ ?_ _ _ ?_ hr).2
  · rintro s ⟨hp, hw⟩ - -
    exact ⟨advance_p _ _ _, advance_windowOf (by rwa [hp]) _ _⟩
  · exact fun s found i hs => hs
  · exact ⟨advance_p _ _ _, advance_windowOf hs.window _ _⟩

/-- Whatever a call does, it leaves a window at the start of the array. -/
theorem readFrame_windowOf (hw : WindowOf stream c.readBuf 0 c.bufRead.toNat input) :
    WindowOf stream (c.readFrame alloc input).2.1.readBuf 0
      (c.readFrame alloc input).2.1.bufRead.toNat (c.readFrame alloc input).2.2 := by
  have hheader := headerLoop_windowOf ((c.firstRead input).2.length + 2) 0
    (firstRead_windowOf hw) (by omega)
  unfold MjpegCodec.readFrame
  split
  · exact hw
  dsimp only [MjpegCodec.searchHeader]
  split
  · rename_i hpos
    have hs := copyStart_copyState (c.firstRead input).1 hheader
    split
    · rename_i s hsearch
      exact searchTrailer_windowOf hs hpos (.inr hsearch)
    · rename_i s hsearch
      split
      · exact searchTrailer_windowOf hs hpos (.inl hsearch)
      · exact searchTrailer_windowOf hs hpos (.inl hsearch)
  · rename_i hpos
    rw [show ∀ x : Int, ¬ 0 < x → x.toNat = 0 from fun x hx => by omega]
    · exact .empty hheader.rest_suffix (by omega)
    · exact hpos

end

/-! ## Sequences of calls -/

/-- A codec and the stream it reads, with what the stream still has. -/
structure Reading where
  codec : MjpegCodec
  stream : List UInt8
  rest : List UInt8

/-- The calls of the codec. After a reset it goes on with the same stream, or reads another one
    from its start. -/
inductive ReadCall
  | readFrame (alloc : Nat → Bool)
  | resetInputStatus (stream : Option (List UInt8))

def Reading.init (behind : Nat → UInt8) (stream : List UInt8) : Reading :=
  ⟨.fresh behind, stream, stream⟩

def Reading.step (r : Reading) : ReadCall → Reading
  | .readFrame alloc =>
    { r with
      codec := (r.codec.readFrame alloc r.rest).2.1
      rest := (r.codec.readFrame alloc r.rest).2.2 }
  | .resetInputStatus none => { r with codec := r.codec.resetInputStatus }
  | .resetInputStatus (some stream) => ⟨r.codec.resetInputStatus, stream, stream⟩

/-- The call looks only at bytes of its window. -/
def AccessesValid (r : Reading) : ReadCall → Prop
  | .readFrame alloc => ∀ a ∈ r.codec.readFrameAccesses alloc r.rest, ValidAccess r.stream a
  | .resetInputStatus _ => True

/-- No search runs into the end of its window. -/
def WindowsClean (r : Reading) : ReadCall → Prop
  | .readFrame alloc => alloc 0 = true → HeaderClean alloc (searched r.codec r.rest)
  | .resetInputStatus _ => True

/-- The window is one of the stream. -/
def Reading.InStream (r : Reading) : Prop :=
  WindowOf r.stream r.codec.readBuf 0 r.codec.bufRead.toNat r.rest

/-- The codec has read nothing of the stream in the beginning. -/
theorem inStream_init (behind : Nat → UInt8) (stream : List UInt8) :
    (Reading.init behind stream).InStream :=
  .empty List.suffix_rfl (by omega)

/-- Every call leaves a window of the stream. -/
theorem Reading.InStream.step {r : Reading} (hr : r.InStream) (call : ReadCall) :
    (r.step call).InStream := by
  cases call with
  | readFrame alloc => exact readFrame_windowOf hr
  | resetInputStatus stream =>
    cases stream with
    -- a reset drops the window: what is left of the stream stays
    | none => exact .empty hr.rest_suffix (by omega)
    | some stream => exact .empty List.suffix_rfl (by omega)

/-- One call. -/
theorem accessesValid_iff_windowsClean {r : Reading} (hr : r.InStream) (call : ReadCall) :
    AccessesValid r call ↔ WindowsClean r call := by
  cases call with
  | readFrame alloc => exact readFrameAccesses_valid_iff hr
  | resetInputStatus stream => exact Iff.rfl

/-- For every stream, every sequence of calls and every outcome of the allocations: every access
    to `m_read_buf` is to a byte that was delivered and is not used up, exactly if no search
    runs into the end of its window. -/
theorem accesses_valid_iff (behind : Nat → UInt8) (stream : List UInt8)
    (calls : List ReadCall) :
    Always Reading.step AccessesValid (.init behind stream) calls ↔
      Always Reading.step WindowsClean (.init behind stream) calls :=
  always_congr (I := Reading.InStream) (fun _ call hr => accessesValid_iff_windowsClean hr call)
    (fun _ call hr _ => hr.step call) (inStream_init behind stream)

/-- The test of an `FF` at the end of the stream looks at the byte behind it, and a header at its
    end is copied with the byte behind it. -/
theorem not_accesses_valid :
    ¬ Always Reading.step AccessesValid (.init (fun _ => 0) [0xFF])
        [.readFrame fun _ => true] ∧
      ¬ Always Reading.step AccessesValid (.init (fun _ => 0) [0xFF, 0xD8])
        [.readFrame fun _ => true] := by
  constructor
  · intro h
    have hvalid := h.1 ⟨1, 0, [0xFF], []⟩ (by decide)
    exact absurd hvalid.lt_base_add (by decide)
  · intro h
    have hvalid := h.1 ⟨2, 0, [0xFF, 0xD8], []⟩ (by decide)
    exact absurd hvalid.lt_base_add (by decide)

end Ivy.Spec
