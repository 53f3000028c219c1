import Ivy.Spec.FrameSplit

/-!
# The window of the frame reader

`Holds` relates the memory `m_read_buf` to the part of the stream it shows: the
cells of the window, the stale cell right behind a short window and the cell
behind the array. Under it the marker test of the code is a statement about the
stream and `seenAfter`, and a refill moves the relation on by one window.
-/

namespace Ivy.Spec

open Ivy.Mem Ivy.Native

/-- The size of the buffer. -/
@[simp] theorem readBufferSize_eq : readBufferSize = 1024 := rfl

/-- The window shows the start of `l`; what it showed before is `prev`. -/
structure Holds (buf : Nat → UInt8) (behind : UInt8) (prev l : List UInt8) : Prop where
  cell : ∀ i x, i < 1024 → l[i]? = some x → buf i = x
  stale : l.length < 1024 → buf l.length = prev.getD l.length 0
  behind : buf 1024 = behind

namespace Holds

variable {buf : Nat → UInt8} {behind : UInt8} {prev l : List UInt8}

/-- The cells of the window are the bytes of the stream. -/
theorem cell_getD (hw : Holds buf behind prev l) {i : Nat} (hi : i < 1024) (hl : i < l.length) :
    buf i = l.getD i 0 := by
  apply hw.cell i _ hi
  rw [List.getD_eq_getElem?_getD, List.getElem?_eq_getElem hl, Option.getD_some]

/-- The cell after position `i` of the window is the byte `seenAfter` names. -/
theorem next (hw : Holds buf behind prev l) {i : Nat} (hi : i < 1024) (hl : i < l.length) :
    buf (i + 1) = seenAfter behind prev l i := by
  unfold seenAfter
  -- the cell behind the buffer, a cell of the window, or an old one
  by_cases hedge : i + 1 = 1024
  · rw [if_pos (by omega), hedge, hw.behind]
  · rw [if_neg (by omega)]
    by_cases hin : i + 1 < l.length
    · rw [if_pos hin]
      exact hw.cell_getD (by omega) hin
    · have hlen : l.length = i + 1 := by omega
      rw [if_neg hin, if_pos (by omega), ← hlen]
      exact hw.stale (by omega)

/-- The code's marker test at position `i` of the window. -/
theorem markerAt_iff (hw : Holds buf behind prev l) (second : UInt8) {i : Nat}
    (hi : i < 1024) (hl : i < l.length) :
    markerAt buf second i = true ↔
      l[i]? = some 0xFF ∧ seenAfter behind prev l i = second := by
  have hcell := hw.cell i l[i] hi (List.getElem?_eq_getElem hl)
  simp only [markerAt, Bool.and_eq_true, beq_iff_eq, hcell, hw.next hi hl,
    List.getElem?_eq_getElem hl, Option.some.injEq]

/-- Where the test is not misled it finds exactly the markers of the stream. -/
theorem markerAt_eq_isMarker (hw : Holds buf behind prev l) {second : UInt8} {i : Nat}
    (hi : i < 1024) (hl : i < l.length) (hs : SeesMarker behind prev l second i) :
    markerAt buf second i = isMarker l second i := by
  rw [Bool.eq_iff_iff, hw.markerAt_iff second hi hl, isMarker_iff]
  constructor
  · rintro ⟨hff, hsee⟩
    exact ⟨hff, (hs hff).mp hsee⟩
  · rintro ⟨hff, hnext⟩
    exact ⟨hff, (hs hff).mpr hnext⟩

/-- The window's cells are a block of the stream. -/
theorem load_eq (hw : Holds buf behind prev l) {p n : Nat} (hp : p + n ≤ 1024)
    (hl : p + n ≤ l.length) : load buf p n = (l.drop p).take n := by
  have hlen : ((l.drop p).take n).length = n := by
    rw [List.length_take, List.length_drop]; omega
  -- `load_eq_of_getElem?` wants the number of cells as the length of the list
  conv => lhs; rw [← hlen]
  apply load_eq_of_getElem?
  intro i x hx
  rw [List.getElem?_take] at hx
  split at hx
  · rw [List.getElem?_drop] at hx
    exact hw.cell _ _ (by omega) hx
  · exact absurd hx (by simp)

/-- Refilling a full window from its start moves it on by 1024 bytes. -/
theorem refill (hw : Holds buf behind prev l) (hl : 1024 ≤ l.length) :
    Holds (store buf 0 ((l.drop 1024).take 1024)) behind l (l.drop 1024) where
  cell i x hi hx := by
    have h : ((l.drop 1024).take 1024)[i]? = some x := by
      rw [List.getElem?_take, if_pos hi]; exact hx
    simpa using store_of_getElem? buf (o := 0) h
  stale hs := by
    -- the cell behind a short window still shows the window before
    rw [List.length_drop] at hs
    rw [store_of_ge _ _ (by rw [List.length_take, List.length_drop]; omega), List.length_drop]
    exact hw.cell_getD hs (by omega)
  behind := by
    rw [store_of_ge _ _ (by rw [List.length_take]; omega)]
    exact hw.behind

/-- Dropping the first `n` bytes of the window, moving its rest to its start and
    filling it up moves it on by `n` bytes. -/
theorem shift (hw : Holds buf behind prev l) {n o : Nat} (hn : n + o = min 1024 l.length)
    (hpos : 0 < n) :
    Holds (store (store buf 0 (load buf n o)) o ((l.drop 1024).take (1024 - o)))
      behind l (l.drop n) where
  cell i x hi hx := by
    rw [List.getElem?_drop] at hx
    have hlt := (List.getElem?_eq_some_iff.mp hx).1
    -- the bytes that were moved down, or the new ones
    by_cases hio : i < o
    · -- moved down: stored first, and not overwritten by the fill
      rw [store_of_lt _ _ hio]
      have h : (load buf n o)[i]? = some x := by
        rw [getElem?_load _ hio, hw.cell _ _ (by omega) hx]
      simpa using store_of_getElem? buf (o := 0) h
    · have h : ((l.drop 1024).take (1024 - o))[i - o]? = some x := by
        rw [List.getElem?_take, if_pos (by omega), List.getElem?_drop, ← hx]
        congr 1; omega
      have := store_of_getElem? (store buf 0 (load buf n o)) (o := o) h
      rwa [show o + (i - o) = i by omega] at this
  stale hs := by
    rw [List.length_drop] at hs
    rw [store_of_ge _ _ (by rw [List.length_take, List.length_drop, List.length_drop]; omega),
      store_of_ge _ _ (by rw [length_load, List.length_drop]; omega), List.length_drop]
    exact hw.cell_getD hs (by omega)
  behind := by
    rw [store_of_ge _ _ (by rw [List.length_take]; omega),
      store_of_ge _ _ (by rw [length_load]; omega)]
    exact hw.behind

end Holds

/-- A window that is filled from its start shows the stream, whatever it held before. -/
theorem Holds.stored (buf : Nat → UInt8) (l : List UInt8) :
    Holds (store buf 0 (l.take 1024)) (buf 1024) (load buf 0 1024) l where
  cell i x hi hx := by
    have h : (l.take 1024)[i]? = some x := by
      rw [List.getElem?_take, if_pos hi]; exact hx
    simpa using store_of_getElem? buf (o := 0) h
  stale hs := by
    rw [store_of_ge _ _ (by rw [List.length_take]; omega), List.getD_eq_getElem?_getD,
      getElem?_load _ hs, Nat.zero_add]
    rfl
  behind := store_of_ge _ _ (by rw [List.length_take]; omega)

/-- The first read of a stream puts its start into the zeroed window. -/
theorem Holds.first (behind : Nat → UInt8) (l : List UInt8) :
    Holds (store (MjpegCodec.fresh behind).readBuf 0 (l.take 1024)) (behind 0) [] l where
  cell := (Holds.stored _ l).cell
  stale hs := by
    rw [(Holds.stored _ l).stale hs, List.getD_eq_getElem?_getD, getElem?_load _ hs]
    -- the constructor has cleared the array
    simp [MjpegCodec.fresh, hs]
  behind := by
    rw [(Holds.stored _ l).behind]
    simp [MjpegCodec.fresh]

/-! ## The marker scan -/

/-- The first marker is found, -/
theorem markerScan_eq_some {buf : Nat → UInt8} {p start stop i : Nat} {second : UInt8} :
    markerScan buf p second start stop = some i ↔
      start ≤ i ∧ i < stop ∧ markerAt buf second (p + i) = true ∧
        ∀ j, start ≤ j → j < i → markerAt buf second (p + j) = false := by
  simp only [markerScan, List.find?_range'_eq_some, List.mem_range'_1, Bool.not_eq_eq_eq_not,
    Bool.not_true]
  constructor
  · rintro ⟨hm, ⟨hs, hlt⟩, hno⟩
    exact ⟨hs, by omega, hm, hno⟩
  · rintro ⟨hs, hlt, hm, hno⟩
    exact ⟨hm, ⟨hs, by omega⟩, hno⟩

/-- or there is none. -/
theorem markerScan_eq_none {buf : Nat → UInt8} {p start stop : Nat} {second : UInt8} :
    markerScan buf p second start stop = none ↔
      ∀ j, start ≤ j → j < stop → markerAt buf second (p + j) = false := by
  simp only [markerScan, List.find?_range'_eq_none, Bool.not_eq_eq_eq_not, Bool.not_true]
  constructor
  · intro h j hj hlt
    exact h j hj (by omega)
  · intro h j hj hlt
    exact h j hj (by omega)

/-! ## The copy loop -/

/-- After a round the search begins at the start of the buffer, -/
@[simp] theorem advance_p (s : TrailerScan) (found : Bool) (i : Nat) :
    (s.advance found i).p = 0 := by
  simp only [TrailerScan.advance]; split <;> rfl

/-- without bytes to be skipped. -/
@[simp] theorem advance_i (s : TrailerScan) (found : Bool) (i : Nat) :
    (s.advance found i).i = 0 := by
  simp only [TrailerScan.advance]; split <;> rfl

/-- The result of the search is kept. -/
@[simp] theorem advance_found (s : TrailerScan) (found : Bool) (i : Nat) :
    (s.advance found i).found = found := by
  simp only [TrailerScan.advance]; split <;> rfl

/-- The copy loop is over once the trailer was found. -/
theorem trailerLoop_of_found {alloc : Nat → Bool} {s : TrailerScan} (fuel k : Nat)
    (hf : s.found = true) : trailerLoop alloc fuel k s = .ok s := by
  cases fuel <;> simp [trailerLoop, hf]

/-- The copy loop is over once the window is empty. -/
theorem trailerLoop_of_empty {alloc : Nat → Bool} {s : TrailerScan} (fuel k : Nat)
    (h : ¬ 0 < s.bufRead) : trailerLoop alloc fuel k s = .ok s := by
  cases fuel <;> simp [trailerLoop, h]

/-- The copy loop is over, or a round fails to allocate memory, or the loop goes on with the
    scan that the round leaves. -/
theorem trailerLoop_cases (alloc : Nat → Bool) (fuel k : Nat) (s : TrailerScan) :
    (s.found = true ∨ s.bufRead ≤ 0) ∧ trailerLoop alloc (fuel + 1) k s = .ok s ∨
      (0 < s.bufRead ∧ s.found = false) ∧
        (trailerLoop alloc (fuel + 1) k s =
            .error { s with found := s.search.1, i := s.search.2 } ∨
          trailerLoop alloc (fuel + 1) k s =
            trailerLoop alloc fuel (k + 1) (s.advance s.search.1 s.search.2)) := by
  by_cases hfound : s.found = true
  · exact .inl ⟨.inl hfound, trailerLoop_of_found _ _ hfound⟩
  by_cases hpos : 0 < s.bufRead
  · -- the loop condition holds, and a round is made
    have hguard : 0 < s.bufRead ∧ s.found = false := ⟨hpos, Bool.eq_false_iff.mpr hfound⟩
    refine .inr ⟨hguard, ?_⟩
    rw [show trailerLoop alloc (fuel + 1) k s = _ from if_pos hguard]
    -- the frame has no room, and gets none
    by_cases halloc : s.data.length + s.search.2 > s.dataSize ∧ alloc k = false
    · exact .inl (by simp only [TrailerScan.step, if_pos halloc])
    · exact .inr (by simp only [TrailerScan.step, if_neg halloc])
  · exact .inl ⟨.inr (by omega), trailerLoop_of_empty _ _ hpos⟩

end Ivy.Spec
