import Ivy.Native.MjpegCodec

/-!
# Splitting a byte list into frames

The chunk-free reference for `MjpegCodec::read_frame`: `splitFrames` cuts a byte
list at its markers, with no window and no refill.

The second half describes what the windowed reader sees instead. Its windows lie
at multiples of 1024 bytes behind the end of the previous frame. Inside a window
the byte after position `i` is the next byte of the list; at the window's last
byte it is whatever the memory holds there (`seenAfter`). `EdgesClear` says that
no decision is made on such a byte: it is the condition under which the reader
and the reference agree.
-/

namespace Ivy.Spec

/-! ## The reference splitter -/

/-- `FF second` lies at position `i` of `l`. -/
def isMarker (l : List UInt8) (second : UInt8) (i : Nat) : Bool :=
  l[i]? == some 0xFF && l[i + 1]? == some second

/-- The first position from `start` on with the marker `FF second`. -/
def findMarker (l : List UInt8) (second : UInt8) (start : Nat) : Option Nat :=
  (List.range' start (l.length - start)).find? (isMarker l second)

/-- Header and trailer position of the first frame: the trailer is the first
    `FF D9` whose `FF` lies at least three bytes behind the start of the frame. -/
def nextFrame (l : List UInt8) : Option (Nat × Nat) :=
  match findMarker l 0xD8 0 with
  | none => none
  | some h => (findMarker l 0xD9 (h + 3)).map fun t => (h, t)

/-! ### Marker positions -/

/-- A marker is its two bytes, one behind the other. -/
theorem isMarker_iff {l : List UInt8} {second : UInt8} {i : Nat} :
    isMarker l second i = true ↔ l[i]? = some 0xFF ∧ l[i + 1]? = some second := by
  simp only [isMarker, Bool.and_eq_true, beq_iff_eq]

/-- Both bytes of a marker lie in the list. -/
theorem isMarker_lt {l : List UInt8} {second : UInt8} {i : Nat}
    (h : isMarker l second i = true) : i + 1 < l.length :=
  (List.getElem?_eq_some_iff.mp (isMarker_iff.mp h).2).1

/-- Behind the first `n` bytes the markers are where they were. -/
theorem isMarker_drop (l : List UInt8) (second : UInt8) (n i : Nat) :
    isMarker (l.drop n) second i = isMarker l second (n + i) := by
  simp only [isMarker, List.getElem?_drop, Nat.add_assoc]

/-- What the search finds is the first marker from `start` on. -/
theorem findMarker_eq_some {l : List UInt8} {second : UInt8} {start i : Nat} :
    findMarker l second start = some i ↔
      start ≤ i ∧ isMarker l second i = true ∧
        ∀ j, start ≤ j → j < i → isMarker l second j = false := by
  simp only [findMarker, List.find?_range'_eq_some, List.mem_range'_1, Bool.not_eq_eq_eq_not,
    Bool.not_true]
  constructor
  · rintro ⟨hm, ⟨hs, _⟩, hlt⟩
    exact ⟨hs, hm, hlt⟩
  · rintro ⟨hs, hm, hlt⟩
    have := isMarker_lt hm
    exact ⟨hm, ⟨hs, by omega⟩, hlt⟩

/-- The search finds nothing exactly if there is no marker from `start` on. -/
theorem findMarker_eq_none {l : List UInt8} {second : UInt8} {start : Nat} :
    findMarker l second start = none ↔ ∀ j, start ≤ j → isMarker l second j = false := by
  simp only [findMarker, List.find?_range'_eq_none, Bool.not_eq_eq_eq_not, Bool.not_true]
  constructor
  · intro h j hj
    by_cases hlt : j < start + (l.length - start)
    · exact h j hj hlt
    · -- behind the end there is no marker
      cases hm : isMarker l second j with
      | false => rfl
      | true => have := isMarker_lt hm; omega
  · intro h j hj _
    exact h j hj

/-- The first frame runs from the first header to the first trailer behind it. -/
theorem nextFrame_eq_some {l : List UInt8} {h t : Nat} :
    nextFrame l = some (h, t) ↔
      findMarker l 0xD8 0 = some h ∧ findMarker l 0xD9 (h + 3) = some t := by
  unfold nextFrame
  cases findMarker l 0xD8 0 with
  | none => simp
  | some h' =>
    -- the trailer is searched for behind the header that was found
    simp only [Option.map_eq_some_iff, Prod.mk.injEq, Option.some.injEq]
    constructor
    · rintro ⟨t', ht, rfl, rfl⟩
      exact ⟨rfl, ht⟩
    · rintro ⟨rfl, ht⟩
      exact ⟨t, ht, rfl, rfl⟩

/-- There is no frame without a header, or without a trailer behind the first one. -/
theorem nextFrame_eq_none {l : List UInt8} :
    nextFrame l = none ↔
      findMarker l 0xD8 0 = none ∨
        ∃ h, findMarker l 0xD8 0 = some h ∧ findMarker l 0xD9 (h + 3) = none := by
  unfold nextFrame
  cases findMarker l 0xD8 0 <;> simp

/-- The trailer lies behind the first three bytes of the frame, and within the list. -/
theorem nextFrame_lt {l : List UInt8} {h t : Nat} (hf : nextFrame l = some (h, t)) :
    h + 3 ≤ t ∧ t + 1 < l.length := by
  obtain ⟨_, ht⟩ := nextFrame_eq_some.mp hf
  obtain ⟨hle, hm, _⟩ := findMarker_eq_some.mp ht
  exact ⟨hle, isMarker_lt hm⟩

/-- The blocks of the reference: cut out the first frame with both its markers,
    continue right behind it, stop when no header or no trailer is left. -/
def splitFrames (l : List UInt8) : List (List UInt8) :=
  match _hf : nextFrame l with
  | none => []
  | some (h, t) => (l.drop h).take (t + 2 - h) :: splitFrames (l.drop (t + 2))
termination_by l.length
decreasing_by
  -- the rest begins behind the trailer, so that it is shorter
  have := nextFrame_lt _hf
  rw [List.length_drop]; omega

/-- Without a complete frame nothing is cut out. -/
theorem splitFrames_none {l : List UInt8} (hf : nextFrame l = none) : splitFrames l = [] := by
  rw [splitFrames]; split <;> simp_all

/-- The first frame is cut out, and the rest is split behind its trailer. -/
theorem splitFrames_some {l : List UInt8} {h t : Nat} (hf : nextFrame l = some (h, t)) :
    splitFrames l = (l.drop h).take (t + 2 - h) :: splitFrames (l.drop (t + 2)) := by
  rw [splitFrames]; split <;> simp_all

/-! ## What the windowed reader sees -/

/-- The byte the reader finds after position `i` of `l`, when windows start at the
    multiples of 1024. Behind a full window lies the next member of the object
    (`behind`); behind the last, short window lies a byte of the window before it,
    which for the first window of `l` is a byte of `prev`. -/
def seenAfter (behind : UInt8) (prev l : List UInt8) (i : Nat) : UInt8 :=
  if (i + 1) % 1024 = 0 then behind
  else if i + 1 < l.length then l.getD (i + 1) 0
  else if i + 1 < 1024 then prev.getD (i + 1) 0
  else l.getD (i + 1 - 1024) 0

/-- The test for the marker `FF second` at position `i` comes out as it would on
    the list itself. -/
def SeesMarker (behind : UInt8) (prev l : List UInt8) (second : UInt8) (i : Nat) : Prop :=
  l[i]? = some 0xFF → (seenAfter behind prev l i = second ↔ l[i + 1]? = some second)

instance (behind : UInt8) (prev l : List UInt8) (second : UInt8) (i : Nat) :
    Decidable (SeesMarker behind prev l second i) :=
  inferInstanceAs (Decidable (_ → _))

/-- The window edges inside the first frame of `l`, which starts at `h` and has its
    trailer at `t`, do no harm. -/
structure FrameClear (behind : UInt8) (prev l : List UInt8) (h t : Nat) : Prop where
  /-- No marker test up to the header is misled. -/
  header : ∀ i, i ≤ h → SeesMarker behind prev l 0xD8 i
  /-- The first three bytes of the frame, which are copied unseen, share a window. -/
  room : h % 1024 + 3 ≤ 1024
  /-- If they end the window, no `FF D9` starts at the third of them. -/
  third : h % 1024 + 3 = 1024 → isMarker l 0xD9 (h + 2) = false
  /-- No marker test up to the trailer is misled. -/
  trailer : ∀ i, h + 3 ≤ i → i < t → SeesMarker behind prev l 0xD9 i
  /-- The two bytes of the trailer share a window. -/
  whole : (t + 1) % 1024 ≠ 0

/-- The same for the rest of the stream, when `l` has no complete frame: the reader
    takes no header for one unless it is the first one of `l`, and finds no trailer. -/
structure TailClear (behind : UInt8) (prev l : List UInt8) : Prop where
  header : ∀ i, i + 1 < l.length → (∀ h, findMarker l 0xD8 0 = some h → i ≤ h) →
    SeesMarker behind prev l 0xD8 i
  room : ∀ h, findMarker l 0xD8 0 = some h →
    h % 1024 + 3 ≤ 1024 ∨ l.length ≤ 1024 * (h / 1024) + 1024
  third : ∀ h, findMarker l 0xD8 0 = some h → h % 1024 + 3 = 1024 →
    isMarker l 0xD9 (h + 2) = false
  trailer : ∀ h i, findMarker l 0xD8 0 = some h → h + 3 ≤ i → l[i]? = some 0xFF →
    seenAfter behind prev l i ≠ 0xD9

/-- No window edge of the whole stream does harm. A frame hands the window its
    trailer was found in to the search for the next one. -/
inductive EdgesClear (behind : UInt8) : List UInt8 → List UInt8 → Prop
  | tail {prev l : List UInt8} : nextFrame l = none → TailClear behind prev l →
      EdgesClear behind prev l
  | frame {prev l : List UInt8} {h t : Nat} : nextFrame l = some (h, t) →
      FrameClear behind prev l h t →
      EdgesClear behind (l.drop (1024 * (t / 1024))) (l.drop (t + 2)) →
      EdgesClear behind prev l

/-! ### Moving on by one window -/

/-- The second window is to the rest what the first one is to the list, with the first window as the
    bytes before it. -/
theorem seenAfter_drop (behind : UInt8) (prev l : List UInt8) (i : Nat) :
    seenAfter behind l (l.drop 1024) i = seenAfter behind prev l (1024 + i) := by
  unfold seenAfter
  rw [show 1024 + i + 1 = 1024 + (i + 1) by omega, Nat.add_mod_left, List.length_drop]
  have hget : ∀ n, (l.drop 1024).getD n 0 = l.getD (1024 + n) 0 := by
    intro n; simp only [List.getD_eq_getElem?_getD, List.getElem?_drop]
  split
  · rfl
  · -- not the last byte of a window: is there a byte behind it?
    by_cases hlt : i + 1 < l.length - 1024
    · rw [if_pos hlt, if_pos (show 1024 + (i + 1) < l.length by omega), hget]
    · rw [if_neg hlt, if_neg (show ¬ 1024 + (i + 1) < l.length by omega),
        if_neg (show ¬ 1024 + (i + 1) < 1024 by omega), hget]
      -- at the end of the list the byte of the window before is seen
      rw [Nat.add_sub_cancel_left]
      split
      · rfl
      · rw [Nat.add_sub_cancel' (by omega)]

end Ivy.Spec
