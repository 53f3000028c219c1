import Ivy.Spec.ReadWindow
import Mathlib.Algebra.Group.Nat.Defs

/-!
# read_frame against the reference splitter

The header search and the copy loop are followed window by window. `CopyAt` is
the invariant of the copy loop; `advance_copyAt` says that one round moves it on
by the bytes it copies, whether or not they end with the trailer.
-/

namespace Ivy.Spec

open Ivy.Mem Ivy.Native

variable {behind : UInt8} {prev l : List UInt8}

/-! ## Header search -/

/-- A marker of the next window is one of the stream. -/
theorem seesMarker_drop (prev : List UInt8) {second : UInt8} {i : Nat} :
    SeesMarker behind l (l.drop 1024) second i ↔ SeesMarker behind prev l second (1024 + i) := by
  simp only [SeesMarker, seenAfter_drop behind prev, List.getElem?_drop, Nat.add_assoc]

/-- The window shows the part of `l` from byte `b` on, and the look-ahead there is
    the one of `l`. -/
def ShowsAt (buf : Nat → UInt8) (behind : UInt8) (prev l : List UInt8) (b : Nat) : Prop :=
  ∃ prev', Holds buf behind prev' (l.drop b) ∧
    ∀ i, seenAfter behind prev' (l.drop b) i = seenAfter behind prev l (b + i)

/-- What a window shows, it shows of the stream. -/
theorem ShowsAt.of_drop (prev : List UInt8) {buf : Nat → UInt8} {b : Nat}
    (h : ShowsAt buf behind l (l.drop 1024) b) : ShowsAt buf behind prev l (1024 + b) := by
  obtain ⟨prev', hw, hsee⟩ := h
  rw [List.drop_drop] at hw hsee
  refine ⟨prev', hw, fun i => ?_⟩
  rw [hsee, seenAfter_drop behind prev, Nat.add_assoc]

/-- The codec sees the markers of the stream. -/
private theorem markerAt_window {buf : Nat → UInt8} {second : UInt8} {i : Nat}
    (hw : Holds buf behind prev l) (hi : i < min 1024 l.length)
    (hs : SeesMarker behind prev l second i) :
    markerAt buf second (0 + i) = isMarker l second i := by
  rw [Nat.zero_add]
  exact hw.markerAt_eq_isMarker (by omega) (by omega) hs

/-- The header search stops at the first header of the stream, in the window the
    header lies in. -/
theorem headerLoop_found {buf : Nat → UInt8} {h : Nat} (fuel i₀ : Nat)
    (hw : Holds buf behind prev l) (hm : isMarker l 0xD8 h = true)
    (hno : ∀ j, j < h → isMarker l 0xD8 j = false)
    (hsee : ∀ j, j ≤ h → SeesMarker behind prev l 0xD8 j) (hfuel : h < 1024 * fuel) :
    ∃ buf', headerLoop fuel buf ((min 1024 l.length : Nat) : Int) i₀ (l.drop 1024) =
        ⟨true, h % 1024, buf', ((min 1024 (l.length - 1024 * (h / 1024)) : Nat) : Int),
          l.drop (1024 * (h / 1024) + 1024)⟩ ∧
      ShowsAt buf' behind prev l (1024 * (h / 1024)) := by
  induction fuel generalizing buf prev l h i₀ with
  | zero => omega
  | succ fuel ih =>
    have hlt := isMarker_lt hm
    have hpos : (0 : Int) < ((min 1024 l.length : Nat) : Int) := by omega
    simp only [headerLoop, if_pos hpos, Int.toNat_natCast, readBufferSize_eq]
    by_cases hin : h < 1024
    · -- the header lies in this window
      have hscan : markerScan buf 0 0xD8 0 (min 1024 l.length) = some h := by
        refine markerScan_eq_some.mpr ⟨by omega, by omega, ?_, fun j _ hj => ?_⟩
        · rw [markerAt_window hw (by omega) (hsee h (by omega)), hm]
        · rw [markerAt_window hw (by omega) (hsee j (by omega)), hno j hj]
      have hdiv : h / 1024 = 0 := by omega
      rw [hscan, hdiv, Nat.mod_eq_of_lt hin]
      refine ⟨buf, by simp, prev, by simpa using hw, fun i => by simp⟩
    · -- no header up to the edge: the search goes on in the next window
      have hscan : markerScan buf 0 0xD8 0 (min 1024 l.length) = none := by
        refine markerScan_eq_none.mpr fun j _ hj => ?_
        rw [markerAt_window hw hj (hsee j (by omega)), hno j (by omega)]
      have hsub : isMarker (l.drop 1024) 0xD8 (h - 1024) = true := by
        rw [isMarker_drop, Nat.add_sub_cancel' (by omega)]; exact hm
      have hlen : ((l.drop 1024).take 1024).length = min 1024 (l.drop 1024).length :=
        List.length_take
      obtain ⟨buf', hloop, hshow⟩ := ih (min 1024 l.length) (hw.refill (by omega)) hsub
        (fun j hj => by rw [isMarker_drop]; exact hno _ (by omega))
        (fun j hj => (seesMarker_drop prev).mpr (hsee _ (by omega))) (by omega)
      -- positions in the rest of the stream, counted from its start
      have hbase : 1024 + 1024 * ((h - 1024) / 1024) = 1024 * (h / 1024) := by omega
      have hoff : (h - 1024) % 1024 = h % 1024 := by omega
      have hshow' := hshow.of_drop prev
      rw [hbase] at hshow'
      refine ⟨buf', ?_, hshow'⟩
      rw [hscan]
      simp only [hlen]
      rw [hloop, List.drop_drop, hoff, List.length_drop, Nat.sub_sub, hbase, ← Nat.add_assoc,
        hbase]

/-- Without a header the search fails, or it takes the last byte of the stream for
    one: either way at most one byte is left and the input is used up. -/
theorem headerLoop_none {buf : Nat → UInt8} (fuel i₀ : Nat)
    (hw : Holds buf behind prev l) (hno : ∀ j, isMarker l 0xD8 j = false)
    (hsee : ∀ j, j + 1 < l.length → SeesMarker behind prev l 0xD8 j)
    (hfuel : l.length < 1024 * fuel) :
    let r := headerLoop fuel buf ((min 1024 l.length : Nat) : Int) i₀ (l.drop 1024)
    r.bufRead - r.i ≤ 0 ∨ r.bufRead - r.i = 1 ∧ r.input = [] := by
  induction fuel generalizing buf prev l i₀ with
  | zero => omega
  | succ fuel ih =>
    intro r
    simp only [r, headerLoop, Int.toNat_natCast, readBufferSize_eq]
    split
    · rename_i hpos
      -- no header in the window, as there is none in the stream
      have hquiet : ∀ j, j < min 1024 l.length → j + 1 < l.length →
          markerAt buf 0xD8 (0 + j) = false := by
        intro j hj hlt
        rw [markerAt_window hw hj (hsee j hlt), hno]
      cases hscan : markerScan buf 0 0xD8 0 (min 1024 l.length) with
      | some j =>
        -- only the look-ahead behind the end of the stream can have been taken for `D8`
        obtain ⟨_, hj, hmark, _⟩ := markerScan_eq_some.mp hscan
        have hend : l.length = j + 1 := by
          by_contra hne
          rw [hquiet j hj (by omega)] at hmark
          exact absurd hmark (by simp)
        right
        refine ⟨by simp only; omega, ?_⟩
        exact List.drop_eq_nil_of_le (by omega)
      | none =>
        -- the next window, or the end of the stream
        by_cases hfull : 1024 ≤ l.length
        · have hlen : ((l.drop 1024).take 1024).length = min 1024 (l.drop 1024).length :=
            List.length_take
          simp only [hlen]
          refine ih (min 1024 l.length) (hw.refill hfull)
            (fun j => by rw [isMarker_drop]; exact hno _)
            (fun j hj => (seesMarker_drop prev).mpr (hsee _ ?_)) ?_
          · rw [List.length_drop] at hj; omega
          · rw [List.length_drop]; omega
        · have hnil : l.drop 1024 = [] := List.drop_eq_nil_of_le (by omega)
          left
          rw [hnil]
          cases fuel <;> simp [headerLoop]
    · rename_i hpos
      left
      simp only; omega

/-! ## Copy loop -/

/-- `m_input_index` has counted something and cannot wrap on the rest of the input. -/
structure Counted (index : UInt32) (input : List UInt8) : Prop where
  started : index ≠ 0
  bound : index.toNat + input.length < 2 ^ 32

/-- Fewer bytes to come. -/
theorem Counted.mono {index : UInt32} {input input' : List UInt8} (h : Counted index input)
    (hle : input'.length ≤ input.length) : Counted index input' :=
  ⟨h.started, Nat.lt_of_le_of_lt (Nat.add_le_add_left hle _) h.bound⟩

/-- The index does not wrap round to zero. -/
theorem Counted.read {index : UInt32} {input : List UInt8} (h : Counted index input) (n : Nat) :
    Counted (index + UInt32.ofNat (input.take n).length) (input.drop n) := by
  obtain ⟨hne, hlt⟩ := h
  have hpos : index.toNat ≠ 0 := fun h0 => hne (UInt32.toNat_inj.mp h0)
  -- what is read was counted in the bound
  have hsum : (index + UInt32.ofNat (input.take n).length).toNat =
      index.toNat + (input.take n).length := by
    rw [UInt32.toNat_add, UInt32.toNat_ofNat', List.length_take]
    omega
  constructor
  · intro h0
    have := congrArg UInt32.toNat h0
    rw [hsum, UInt32.toNat_zero] at this
    omega
  · rw [hsum, List.length_take, List.length_drop]
    omega

/-- The copy loop stands at offset `s.p` of a window that shows the start of `l`. -/
structure CopyAt (s : TrailerScan) (behind : UInt8) (prev l : List UInt8) : Prop where
  holds : Holds s.buf behind prev l
  count : s.p + s.bufRead = (min 1024 l.length : Nat)
  input : s.input = l.drop 1024
  index : Counted s.inputIndex s.input
  size : s.data.length ≤ s.dataSize

/-- The `o` bytes that are left of a window, and the refill behind them, are the next window. -/
theorem window_refilled {n k o : Nat} (ho : k + o = min 1024 n) :
    min (1024 - o) (n - 1024) + o = min 1024 (n - k) := by
  by_cases hfull : 1024 ≤ n
  · rw [Nat.min_eq_left hfull] at ho
    omega
  · rw [Nat.min_eq_right (by omega)] at ho
    omega

/-- A round that copies `i` bytes of the window moves the loop on by them. -/
theorem advance_copyAt {s : TrailerScan} (hc : CopyAt s behind prev l) (found : Bool) {i : Nat}
    (hi : s.p + i ≤ min 1024 l.length) (hpos : 0 < s.p + i) :
    CopyAt (s.advance found i) behind l (l.drop (s.p + i)) ∧
      (s.advance found i).data = s.data ++ (l.drop s.p).take i := by
  have hcount := hc.count
  have hload : load s.buf s.p i = (l.drop s.p).take i := hc.holds.load_eq (by omega) (by omega)
  have hsize : (s.data ++ load s.buf s.p i).length ≤ max s.dataSize (s.data.length + i) := by
    rw [List.length_append, length_load]; omega
  -- `o` bytes of the window are left
  obtain ⟨o, ho⟩ : ∃ o, s.p + i + o = min 1024 l.length := ⟨_, Nat.add_sub_cancel' hi⟩
  have hshift := hc.holds.shift ho hpos
  have hdrop : (l.drop (s.p + i)).drop 1024 = (l.drop 1024).drop (1024 - o) := by
    by_cases hfull : 1024 ≤ l.length
    · rw [List.drop_drop, List.drop_drop]; congr 1; omega
    · rw [List.drop_eq_nil_of_le (by rw [List.length_drop]; omega),
        List.drop_eq_nil_of_le (by rw [List.length_drop]; omega)]
  have hlen : ((l.drop 1024).take (1024 - o)).length + o = min 1024 (l.drop (s.p + i)).length := by
    rw [List.length_take, List.length_drop, List.length_drop]
    exact window_refilled ho
  by_cases hopos : 0 < o
  · -- some bytes of the window are left
    have hint : s.bufRead - i = (o : Int) := by omega
    simp only [TrailerScan.advance, hint, Int.natCast_pos, hopos, if_true, Int.toNat_natCast,
      readBufferSize_eq, hload]
    refine ⟨⟨?_, ?_, ?_, ?_, ?_⟩, trivial⟩
    · rw [hc.input]; exact hshift
    · simp only [hc.input]; omega
    · rw [hc.input, hdrop]
    · exact hc.index.read _
    · rw [hload] at hsize; exact hsize
  · -- the whole window was copied
    have ho0 : o = 0 := by omega
    subst ho0
    have hint : ¬ 0 < s.bufRead - (i : Int) := by omega
    rw [load_zero, store_nil] at hshift
    rw [Nat.sub_zero] at hshift hdrop hlen
    simp only [TrailerScan.advance, hint, if_false, readBufferSize_eq, hload]
    refine ⟨⟨?_, ?_, ?_, ?_, ?_⟩, trivial⟩
    · rw [hc.input]; exact hshift
    · simp only [hc.input]; omega
    · rw [hc.input, hdrop]
    · exact hc.index.read _
    · rw [hload] at hsize; exact hsize

/-- The search of a round that finds the trailer at position `t` of the window. -/
theorem search_found {s : TrailerScan} {t : Nat} (hc : CopyAt s behind prev l)
    (hsplit : ¬ (s.data.getLast? = some 0xFF ∧ s.buf s.p = 0xD9))
    (hle : s.p + s.i ≤ t) (hlt : t < min 1024 l.length)
    (hm : markerAt s.buf 0xD9 t = true)
    (hno : ∀ j, s.p + s.i ≤ j → j < t → markerAt s.buf 0xD9 j = false) :
    s.search = (true, t - s.p + 2) := by
  have hcount := hc.count
  -- the search counts from the offset of the window
  have hscan : markerScan s.buf s.p 0xD9 s.i s.bufRead.toNat = some (t - s.p) := by
    refine markerScan_eq_some.mpr
      ⟨by omega, by omega, ?_, fun j hj hjt => hno _ (by omega) (by omega)⟩
    rw [Nat.add_sub_cancel' (by omega)]; exact hm
  rw [TrailerScan.search, if_neg hsplit, hscan]

/-- The search of a round without a trailer takes the whole window. -/
theorem search_none {s : TrailerScan} (hc : CopyAt s behind prev l)
    (hsplit : ¬ (s.data.getLast? = some 0xFF ∧ s.buf s.p = 0xD9))
    (hno : ∀ j, s.p + s.i ≤ j → j < min 1024 l.length → markerAt s.buf 0xD9 j = false) :
    s.search = (false, max s.i (min 1024 l.length - s.p)) := by
  have hcount := hc.count
  have hscan : markerScan s.buf s.p 0xD9 s.i s.bufRead.toNat = none :=
    markerScan_eq_none.mpr fun j hj hjt => hno _ (by omega) (by omega)
  rw [TrailerScan.search, if_neg hsplit, hscan]
  simp only [Prod.mk.injEq, true_and]
  omega

/-- One round of the copy loop when memory is available. -/
theorem trailerLoop_round {s : TrailerScan} {fuel k : Nat} {found : Bool} {i : Nat}
    (hpos : 0 < s.bufRead) (hf : s.found = false) (hs : s.search = (found, i)) :
    trailerLoop (fun _ => true) (fuel + 1) k s =
      trailerLoop (fun _ => true) fuel (k + 1) (s.advance found i) := by
  simp [trailerLoop, hpos, hf, TrailerScan.step, hs]

/-- Nothing follows the last window. -/
theorem advance_bufRead_last {s : TrailerScan} {found : Bool} {i : Nat} (hin : s.input = [])
    (hi : s.bufRead ≤ i) : (s.advance found i).bufRead = 0 := by
  simp [TrailerScan.advance, hin, show ¬ (i : Int) < s.bufRead by omega]

/-- Away from the edges the look-ahead is the next byte of the stream. -/
theorem seesMarker_inside {second : UInt8} {i : Nat} (hedge : (i + 1) % 1024 ≠ 0)
    (hlt : i + 1 < l.length) : SeesMarker behind prev l second i := by
  intro _
  rw [seenAfter, if_neg hedge, if_pos hlt, List.getD_eq_getElem?_getD,
    List.getElem?_eq_getElem hlt, Option.getD_some, Option.some.injEq]

/-- The last byte a whole window leaves in the block. -/
private theorem getLast?_append_window {data : List UInt8} {p : Nat} (hp : p < 1024)
    (hl : 1024 ≤ l.length) :
    (data ++ (l.drop p).take (1024 - p)).getLast? = l[1023]? := by
  have hlen : ((l.drop p).take (1024 - p)).length = 1024 - p := by
    rw [List.length_take, List.length_drop]; omega
  have hne : (l.drop p).take (1024 - p) ≠ [] := by
    intro h0; rw [h0] at hlen; simp only [List.length_nil] at hlen; omega
  rw [List.getLast?_append_of_ne_nil _ hne, List.getLast?_eq_getElem?, hlen, List.getElem?_take,
    if_pos (by omega), List.getElem?_drop]
  congr 1; omega

/-- The state after a window was copied as a whole: it stands at the start of the
    next window, and unless a marker lies across the edge no split trailer is seen. -/
private theorem advance_window {s : TrailerScan} (hc : CopyAt s behind prev l)
    (hp : s.p < 1024) (hl : 1024 ≤ l.length) (hedge : isMarker l 0xD9 1023 = false) :
    CopyAt (s.advance false (1024 - s.p)) behind l (l.drop 1024) ∧
      (s.advance false (1024 - s.p)).data = s.data ++ (l.drop s.p).take (1024 - s.p) ∧
      ¬ ((s.advance false (1024 - s.p)).data.getLast? = some 0xFF ∧
        (l.drop 1024)[0]? = some 0xD9) := by
  obtain ⟨hc', hdata⟩ := advance_copyAt hc false (i := 1024 - s.p) (by omega) (by omega)
  rw [Nat.add_sub_cancel' (by omega)] at hc'
  refine ⟨hc', hdata, ?_⟩
  rw [hdata, getLast?_append_window hp hl, List.getElem?_drop]
  -- an `FF` copied last and a `D9` in front are a marker across the edge
  intro hcut
  exact absurd (isMarker_iff.mpr hcut) (by simp [hedge])

/-- A split trailer is noticed at the start of a window only. -/
private theorem not_split {s : TrailerScan} (hc : CopyAt s behind prev l) (hp : s.p = 0)
    (hl : 0 < l.length) (h : ¬ (s.data.getLast? = some 0xFF ∧ l[0]? = some 0xD9)) :
    ¬ (s.data.getLast? = some 0xFF ∧ s.buf s.p = 0xD9) := by
  rw [List.getElem?_eq_getElem hl, Option.some.injEq] at h
  rwa [hp, hc.holds.cell 0 l[0] (by omega) (List.getElem?_eq_getElem hl)]

/-- A trailer in the window ends the copy loop. -/
private theorem trailerLoop_inside {s : TrailerScan} {t : Nat} (fuel k : Nat)
    (hc : CopyAt s behind prev l) (hf : s.found = false)
    (hsplit : ¬ (s.data.getLast? = some 0xFF ∧ s.buf s.p = 0xD9)) (hle : s.p + s.i ≤ t)
    (hin : t < 1024) (hm : isMarker l 0xD9 t = true)
    (hno : ∀ j, s.p + s.i ≤ j → j < t → isMarker l 0xD9 j = false)
    (hsee : ∀ j, s.p + s.i ≤ j → j < t → SeesMarker behind prev l 0xD9 j)
    (hwhole : (t + 1) % 1024 ≠ 0) :
    ∃ s', trailerLoop (fun _ => true) (fuel + 1) k s = .ok s' ∧ s'.found = true ∧ s'.p = 0 ∧
      s'.data = s.data ++ (l.drop s.p).take (t + 2 - s.p) ∧
      CopyAt s' behind (l.drop (1024 * (t / 1024))) (l.drop (t + 2)) := by
  have hlt := isMarker_lt hm
  have hcount := hc.count
  have hmark : ∀ j, j < min 1024 l.length → SeesMarker behind prev l 0xD9 j →
      markerAt s.buf 0xD9 j = isMarker l 0xD9 j :=
    fun j hj => hc.holds.markerAt_eq_isMarker (by omega) (by omega)
  -- the first marker of the window is the trailer
  have hs : s.search = (true, t - s.p + 2) := by
    refine search_found hc hsplit hle (by omega) ?_ fun j hj hjt => ?_
    · rw [hmark t (by omega) (seesMarker_inside hwhole hlt), hm]
    · rw [hmark j (by omega) (hsee j hj hjt), hno j hj hjt]
  obtain ⟨hc', hdata⟩ := advance_copyAt hc true (i := t - s.p + 2) (by omega) (by omega)
  have hdiv : t / 1024 = 0 := by omega
  have hsum : s.p + (t - s.p + 2) = t + 2 := by omega
  rw [trailerLoop_round (by omega) hf hs, trailerLoop_of_found _ _ (by simp)]
  refine ⟨_, rfl, by simp, by simp, ?_, ?_⟩
  · rw [hdata, show t - s.p + 2 = t + 2 - s.p by omega]
  · rw [hsum] at hc'
    simpa [hdiv] using hc'

/-- There is no trailer across the end of the window. -/
private theorem no_trailer_across {s : TrailerScan} (hroom : s.p + s.i ≤ 1024)
    (hedge : s.p + s.i = 1024 → isMarker l 0xD9 1023 = false)
    (hno : s.p + s.i ≤ 1023 → isMarker l 0xD9 1023 = false) : isMarker l 0xD9 1023 = false := by
  by_cases hfar : s.p + s.i = 1024
  · exact hedge hfar
  · exact hno (by omega)

/-- The copy loop copies up to the first trailer it may look at, which is the first
    one from `s.p + s.i` on. The case `s.p + s.i = 1024` is the one where nothing of
    the current window is looked at. -/
theorem trailerLoop_found {s : TrailerScan} {t : Nat} (fuel k : Nat)
    (hc : CopyAt s behind prev l) (hf : s.found = false)
    (hsplit : ¬ (s.data.getLast? = some 0xFF ∧ s.buf s.p = 0xD9))
    (hp : s.p < 1024) (hroom : s.p + s.i ≤ 1024) (hle : s.p + s.i ≤ t)
    (hedge : s.p + s.i = 1024 → isMarker l 0xD9 1023 = false)
    (hm : isMarker l 0xD9 t = true)
    (hno : ∀ j, s.p + s.i ≤ j → j < t → isMarker l 0xD9 j = false)
    (hsee : ∀ j, s.p + s.i ≤ j → j < t → SeesMarker behind prev l 0xD9 j)
    (hwhole : (t + 1) % 1024 ≠ 0) (hfuel : t < 1024 * fuel) :
    ∃ s', trailerLoop (fun _ => true) fuel k s = .ok s' ∧ s'.found = true ∧ s'.p = 0 ∧
      s'.data = s.data ++ (l.drop s.p).take (t + 2 - s.p) ∧
      CopyAt s' behind (l.drop (1024 * (t / 1024))) (l.drop (t + 2)) := by
  induction fuel generalizing s prev l t k with
  | zero => omega
  | succ fuel ih =>
    have hlt := isMarker_lt hm
    have hcount := hc.count
    by_cases hin : t < 1024
    · exact trailerLoop_inside fuel k hc hf hsplit hle hin hm hno hsee hwhole
    · -- the window is copied as a whole and the loop goes on behind it
      have hs : s.search = (false, 1024 - s.p) := by
        rw [search_none hc hsplit fun j hj hlt => ?_]
        · simp only [Prod.mk.injEq, true_and]; omega
        · rw [hc.holds.markerAt_eq_isMarker (by omega) (by omega) (hsee j hj (by omega)),
            hno j hj (by omega)]
      have hcross := no_trailer_across hroom hedge fun hle => hno 1023 hle (by omega)
      obtain ⟨hc', hdata, hcut⟩ := advance_window hc hp (by omega) hcross
      -- the same trailer, seen from the next window
      have hm' : isMarker (l.drop 1024) 0xD9 (t - 1024) = true := by
        rw [isMarker_drop, Nat.add_sub_cancel' (by omega)]; exact hm
      obtain ⟨s', hloop, hf', hp', hdata', hc''⟩ := ih (k + 1) hc' (by simp)
        (not_split hc' (by simp) (by have := isMarker_lt hm'; omega) hcut) (by simp) (by simp)
        (by simp) (by simp) hm'
        (fun j _ hj => by rw [isMarker_drop]; exact hno _ (by omega) (by omega))
        (fun j _ hj => (seesMarker_drop prev).mpr (hsee _ (by omega) (by omega)))
        (by omega) (by omega)
      -- the frame is what this window adds, and what the others do
      have htake : (l.drop s.p).take (t + 2 - s.p) =
          (l.drop s.p).take (1024 - s.p) ++ (l.drop 1024).take (t - 1024 + 2) := by
        rw [show t + 2 - s.p = (1024 - s.p) + (t - 1024 + 2) by omega, List.take_add,
          List.drop_drop, Nat.add_sub_cancel' (by omega)]
      refine ⟨s', ?_, hf', hp', ?_, ?_⟩
      · rw [trailerLoop_round (by omega) hf hs]; exact hloop
      · rw [hdata', hdata, List.append_assoc, advance_p, List.drop_zero, Nat.sub_zero, htake]
      · rw [List.drop_drop, List.drop_drop] at hc''
        rwa [show 1024 + 1024 * ((t - 1024) / 1024) = 1024 * (t / 1024) by omega,
          show 1024 + (t - 1024 + 2) = t + 2 by omega] at hc''

/-- Without a trailer the copy loop runs to the end of the stream. -/
theorem trailerLoop_none {s : TrailerScan} (fuel k : Nat)
    (hc : CopyAt s behind prev l) (hf : s.found = false)
    (hsplit : ¬ (s.data.getLast? = some 0xFF ∧ s.buf s.p = 0xD9))
    (hp : s.p < 1024) (hroom : s.p + s.i ≤ 1024 ∨ l.length ≤ 1024)
    (hedge : s.p + s.i = 1024 → isMarker l 0xD9 1023 = false)
    (hno : ∀ j, s.p + s.i ≤ j → isMarker l 0xD9 j = false)
    (hquiet : ∀ j, s.p + s.i ≤ j → l[j]? = some 0xFF → seenAfter behind prev l j ≠ 0xD9) :
    ∃ s', trailerLoop (fun _ => true) fuel k s = .ok s' ∧ s'.found = false := by
  induction fuel generalizing s prev l k with
  | zero => exact ⟨s, rfl, hf⟩
  | succ fuel ih =>
    have hcount := hc.count
    by_cases hpos : 0 < s.bufRead
    · -- no marker is seen in the window, nor in the byte behind it
      have hmark : ∀ j, s.p + s.i ≤ j → j < min 1024 l.length →
          markerAt s.buf 0xD9 j = false := by
        intro j hj hlt
        rw [Bool.eq_false_iff]
        intro hm
        obtain ⟨hff, hd9⟩ := (hc.holds.markerAt_iff 0xD9 (by omega) (by omega)).mp hm
        exact hquiet j hj hff hd9
      have hs := search_none hc hsplit hmark
      rw [trailerLoop_round hpos hf hs]
      by_cases hfull : 1024 < l.length
      · -- another window follows
        have hi : max s.i (min 1024 l.length - s.p) = 1024 - s.p := by omega
        have hcross := no_trailer_across (by omega) hedge (hno 1023)
        rw [hi]
        obtain ⟨hc', _, hcut⟩ := advance_window hc hp (by omega) hcross
        refine ih (k + 1) hc' (by simp)
          (not_split hc' (by simp) (by rw [List.length_drop]; omega) hcut) (by simp) (by simp)
          (by simp) (fun j _ => by rw [isMarker_drop]; exact hno _ (by omega)) fun j _ hff => ?_
        rw [seenAfter_drop behind prev]
        exact hquiet _ (by omega) (by rwa [List.getElem?_drop] at hff)
      · -- this was the last window
        have hnil : s.input = [] := by
          rw [hc.input]; exact List.drop_eq_nil_of_le (by omega)
        refine ⟨_, trailerLoop_of_empty _ _ ?_, by simp⟩
        rw [advance_bufRead_last hnil (by omega)]
        exact Int.lt_irrefl 0
    · exact ⟨s, trailerLoop_of_empty _ _ hpos, hf⟩

/-! ## One call -/

/-- The codec between two calls: the window shows the start of `l`, the rest of `l`
    is still to be read. -/
structure AtWindow (c : MjpegCodec) (input : List UInt8) (behind : UInt8)
    (prev l : List UInt8) : Prop where
  holds : Holds c.readBuf behind prev l
  count : c.bufRead = (min 1024 l.length : Nat)
  rest : input = l.drop 1024
  index : Counted c.inputIndex input

/-- After a frame the codec is at a window again. -/
theorem CopyAt.atWindow {s : TrailerScan} (hc : CopyAt s behind prev l) (hp : s.p = 0) :
    AtWindow s.toCodec s.input behind prev l where
  holds := hc.holds
  count := by have := hc.count; simp only [TrailerScan.toCodec]; omega
  rest := hc.input
  index := hc.index

/-- The header search of a call on a stream with a header. -/
private theorem searchHeader_found {c : MjpegCodec} {input : List UInt8} {h : Nat}
    (hat : AtWindow c input behind prev l) (hh : findMarker l 0xD8 0 = some h)
    (hsee : ∀ j, j ≤ h → SeesMarker behind prev l 0xD8 j) :
    ∃ r, c.searchHeader input = r ∧ r.i = h % 1024 ∧ 0 < r.bufRead - r.i ∧
      r.input = (l.drop (1024 * (h / 1024))).drop 1024 ∧
      ∃ prev', CopyAt (c.copyStart r) behind prev' (l.drop (1024 * (h / 1024))) ∧
        ∀ i, seenAfter behind prev' (l.drop (1024 * (h / 1024))) i =
          seenAfter behind prev l (1024 * (h / 1024) + i) := by
  obtain ⟨_, hm, hno⟩ := findMarker_eq_some.mp hh
  have hlt := isMarker_lt hm
  obtain ⟨buf', hloop, prev', hw, hsee'⟩ := headerLoop_found (input.length + 2) 0
    hat.holds hm (fun j hj => hno j (by omega) hj) hsee
    (by rw [hat.rest, List.length_drop]; omega)
  -- the windows before the header are passed over
  have hrest : l.drop (1024 * (h / 1024) + 1024) = (l.drop (1024 * (h / 1024))).drop 1024 := by
    rw [List.drop_drop]
  have hr : c.searchHeader input = ⟨true, h % 1024, buf',
      ((min 1024 (l.length - 1024 * (h / 1024)) : Nat) : Int),
      l.drop (1024 * (h / 1024) + 1024)⟩ := by
    rw [MjpegCodec.searchHeader, hat.count, ← hloop, ← hat.rest]
  have hindex : Counted c.inputIndex (l.drop (1024 * (h / 1024) + 1024)) := by
    refine hat.index.mono ?_
    rw [hat.rest, List.length_drop, List.length_drop]; omega
  refine ⟨_, hr, ?_, ?_, ?_, prev', ⟨hw, ?_, ?_, hindex, ?_⟩, hsee'⟩
  · simp only
  · simp only; omega
  · simp only [hrest]
  · simp only [MjpegCodec.copyStart, List.length_drop]; omega
  · simp only [MjpegCodec.copyStart, hrest]
  · simp [MjpegCodec.copyStart]

/-- A call returns the first frame of the stream and leaves the window behind it. -/
theorem readFrame_frame {c c₁ : MjpegCodec} {input input₁ : List UInt8} {h t : Nat}
    (hfirst : c.firstRead input = (c₁, input₁)) (hat : AtWindow c₁ input₁ behind prev l)
    (hf : nextFrame l = some (h, t)) (hclear : FrameClear behind prev l h t) :
    ∃ c' input', c.readFrame (fun _ => true) input =
        (some ((l.drop h).take (t + 2 - h)), c', input') ∧
      AtWindow c' input' behind (l.drop (1024 * (t / 1024))) (l.drop (t + 2)) := by
  obtain ⟨hh, ht⟩ := nextFrame_eq_some.mp hf
  obtain ⟨hle, hmt, hnot⟩ := findMarker_eq_some.mp ht
  have hlt := isMarker_lt hmt
  have hroom := hclear.room
  obtain ⟨r, hr, hri, hrpos, hrin, prev', hc, hsee⟩ := searchHeader_found hat hh hclear.header
  -- the copy loop, with all positions counted from the window of the header
  have hp : (c₁.copyStart r).p = h % 1024 := hri
  have hi : (c₁.copyStart r).i = 3 := rfl
  have hmark : ∀ j, isMarker (l.drop (1024 * (h / 1024))) 0xD9 j =
      isMarker l 0xD9 (1024 * (h / 1024) + j) := fun j => isMarker_drop ..
  obtain ⟨s', hcopy, hf', hp', hdata, hc'⟩ := trailerLoop_found (r.input.length + 2) 1
    (t := t - 1024 * (h / 1024)) hc rfl (by simp [MjpegCodec.copyStart])
    (by omega) (by omega) (by omega)
    (fun hend => by
      rw [hmark, show 1024 * (h / 1024) + 1023 = h + 2 by omega]
      exact hclear.third (by omega))
    (by rw [hmark, Nat.add_sub_cancel' (by omega)]; exact hmt)
    (fun j hj hjt => by rw [hmark]; exact hnot _ (by omega) (by omega))
    (fun j hj hjt hff => by
      rw [hsee, List.getElem?_drop]
      exact hclear.trailer _ (by omega) (by omega) (by rwa [List.getElem?_drop] at hff))
    (by have := hclear.whole; omega)
    (by rw [hrin, List.length_drop, List.length_drop]; omega)
  -- back to positions in the stream
  have hdata' : s'.data = (l.drop h).take (t + 2 - h) := by
    rw [hdata, hp, List.drop_drop, show 1024 * (h / 1024) + h % 1024 = h by omega,
      show t - 1024 * (h / 1024) + 2 - h % 1024 = t + 2 - h by omega]
    rfl
  rw [List.drop_drop, List.drop_drop,
    show 1024 * (h / 1024) + 1024 * ((t - 1024 * (h / 1024)) / 1024) = 1024 * (t / 1024) by omega,
    show 1024 * (h / 1024) + (t - 1024 * (h / 1024) + 2) = t + 2 by omega] at hc'
  refine ⟨s'.toCodec, s'.input, ?_, hc'.atWindow hp'⟩
  simp only [MjpegCodec.readFrame, Bool.true_eq_false, if_false, hfirst, hr, hrpos, if_true,
    MjpegCodec.searchTrailer, hcopy, hf', hc'.size, and_self, ← hdata']

/-- A call whose copy loop finds no trailer returns `nullptr`. -/
private theorem readFrame_of_not_found {c c₁ : MjpegCodec} {input input₁ : List UInt8}
    (hfirst : c.firstRead input = (c₁, input₁))
    (hcopy : 0 < (c₁.searchHeader input₁).bufRead - (c₁.searchHeader input₁).i →
      ∃ s', c₁.searchTrailer (fun _ => true) (c₁.searchHeader input₁) = .ok s' ∧
        s'.found = false) :
    (c.readFrame (fun _ => true) input).1 = none := by
  simp only [MjpegCodec.readFrame, Bool.true_eq_false, if_false, hfirst]
  split
  · rename_i hpos
    obtain ⟨s', hs, hf⟩ := hcopy hpos
    simp [hs, hf]
  · rfl

/-- A header in the last byte of the stream leads nowhere: three bytes are copied
    and the input is at its end. -/
private theorem searchTrailer_last {c : MjpegCodec} {r : HeaderScan}
    (hone : r.bufRead - r.i = 1) (hin : r.input = []) :
    ∃ s', c.searchTrailer (fun _ => true) r = .ok s' ∧ s'.found = false := by
  -- there is no byte to search behind the three
  have hs : (c.copyStart r).search = (false, 3) := by
    simp [TrailerScan.search, MjpegCodec.copyStart, hone, markerScan]
  have hb : (c.copyStart r).bufRead = 1 := hone
  refine ⟨(c.copyStart r).advance false 3, ?_, by simp⟩
  rw [MjpegCodec.searchTrailer, trailerLoop_round (by omega) rfl hs]
  exact trailerLoop_of_empty _ _ (by rw [advance_bufRead_last hin (by omega)]; omega)

/-- A call on a stream without a complete frame returns `nullptr`. -/
theorem readFrame_tail {c c₁ : MjpegCodec} {input input₁ : List UInt8}
    (hfirst : c.firstRead input = (c₁, input₁)) (hat : AtWindow c₁ input₁ behind prev l)
    (hf : nextFrame l = none) (hclear : TailClear behind prev l) :
    (c.readFrame (fun _ => true) input).1 = none := by
  rcases nextFrame_eq_none.mp hf with hnone | ⟨h, hh, ht⟩
  · -- no header: at most the last byte of the stream is taken for one
    have hno := findMarker_eq_none.mp hnone
    have hend := headerLoop_none (input₁.length + 2) 0 hat.holds
      (fun j => hno j (by omega))
      (fun j hj => hclear.header j hj (fun h hh => by rw [hnone] at hh; exact nomatch hh))
      (by rw [hat.rest, List.length_drop]; omega)
    rw [← hat.count, ← hat.rest] at hend
    refine readFrame_of_not_found hfirst fun hpos => ?_
    obtain hneg | ⟨hone, hin⟩ := hend
    · exact absurd hpos (by simp only [MjpegCodec.searchHeader]; omega)
    · exact searchTrailer_last hone hin
  · -- a header without a trailer
    have hm := (findMarker_eq_some.mp hh).2.1
    have hlt := isMarker_lt hm
    have hno := findMarker_eq_none.mp ht
    obtain ⟨r, hr, hri, hrpos, hrin, prev', hc, hsee⟩ := searchHeader_found hat hh
      fun j hj => hclear.header j (by omega) fun h' hh' => by
        rw [hh, Option.some.injEq] at hh'; omega
    have hp : (c₁.copyStart r).p = h % 1024 := hri
    have hi : (c₁.copyStart r).i = 3 := rfl
    have hroom := hclear.room h hh
    have hmark : ∀ j, isMarker (l.drop (1024 * (h / 1024))) 0xD9 j =
        isMarker l 0xD9 (1024 * (h / 1024) + j) := fun j => isMarker_drop ..
    obtain ⟨s', hcopy, hf'⟩ := trailerLoop_none (r.input.length + 2) 1 hc rfl
      (by simp [MjpegCodec.copyStart]) (by omega) (by rw [List.length_drop]; omega)
      (fun hend => by
        rw [hmark, show 1024 * (h / 1024) + 1023 = h + 2 by omega]
        exact hclear.third h hh (by omega))
      (fun j hj => by rw [hmark]; exact hno _ (by omega))
      (fun j hj hff => by
        rw [hsee]
        exact hclear.trailer h _ hh (by omega) (by rwa [List.getElem?_drop] at hff))
    exact readFrame_of_not_found hfirst fun _ => ⟨s', by rw [hr]; exact hcopy, hf'⟩

/-! ## Whole streams -/

/-- Only the first call reads ahead. -/
theorem firstRead_of_started {c : MjpegCodec} {input : List UInt8} (h : c.inputIndex ≠ 0) :
    c.firstRead input = (c, input) := by
  rw [MjpegCodec.firstRead, if_neg h]

/-- The first call fills the window. -/
theorem firstRead_of_reset {c : MjpegCodec} {input : List UInt8} (h : c.inputIndex = 0) :
    c.firstRead input =
      (⟨store c.readBuf 0 (input.take 1024), (input.take 1024).length, c.readBufOffset,
        UInt32.ofNat (input.take 1024).length⟩, input.drop 1024) := by
  simp only [MjpegCodec.firstRead, h, if_true, readBufferSize_eq, UInt32.zero_add]

/-- The first read of a stream that `m_input_index` can count. -/
theorem firstRead_counted {input : List UInt8} (hne : input ≠ []) (hlen : input.length < 2 ^ 32) :
    Counted (UInt32.ofNat (input.take 1024).length) (input.drop 1024) := by
  have hpos : 0 < input.length := List.length_pos_iff.mpr hne
  have hread : (UInt32.ofNat (input.take 1024).length).toNat = (input.take 1024).length := by
    rw [UInt32.toNat_ofNat', List.length_take]
    omega
  constructor
  · intro h0
    have := congrArg UInt32.toNat h0
    rw [hread, UInt32.toNat_zero, List.length_take] at this
    omega
  · rw [hread, List.length_take, List.length_drop]
    omega

/-- From a window without harmful edges on, the calls return the frames of the
    reference. -/
theorem readFrames_eq_splitFrames (hclear : EdgesClear behind prev l) {c c₁ : MjpegCodec}
    {input input₁ : List UInt8} {n : Nat} (hfirst : c.firstRead input = (c₁, input₁))
    (hat : AtWindow c₁ input₁ behind prev l) (hn : l.length < n) :
    MjpegCodec.readFrames (fun _ => true) n c input = splitFrames l := by
  induction hclear generalizing c c₁ input input₁ n with
  | tail hf htail =>
    -- what is left holds no frame
    have hnone := readFrame_tail hfirst hat hf htail
    rw [splitFrames_none hf]
    cases n with
    | zero => rfl
    | succ n =>
      rw [MjpegCodec.readFrames]
      split
      · rfl
      · rename_i heq; rw [heq] at hnone; exact nomatch hnone
  | @frame prev l h t hf hframe _ ih =>
    -- the first frame, and then the stream behind it
    obtain ⟨c', input', hread, hat'⟩ := readFrame_frame hfirst hat hf hframe
    have hlt := nextFrame_lt hf
    rw [splitFrames_some hf]
    cases n with
    | zero => omega
    | succ n =>
      rw [MjpegCodec.readFrames, hread]
      simp only
      rw [ih (firstRead_of_started hat'.index.started) hat'
        (by rw [List.length_drop]; omega)]

/-- On a stream without harmful window edges, read from its start, the blocks of
    `read_frame` are the ones of the chunk-free splitter. -/
theorem frames_eq_splitFrames (behind : Nat → UInt8) (s : List UInt8) (hlen : s.length < 2 ^ 32)
    (hclear : EdgesClear (behind 0) [] s) :
    (MjpegCodec.fresh behind).frames s = splitFrames s := by
  by_cases hne : s = []
  · subst hne
    rw [splitFrames_none rfl]
    rfl
  · refine readFrames_eq_splitFrames hclear (firstRead_of_reset rfl)
      ⟨Holds.first behind s, ?_, rfl, firstRead_counted hne hlen⟩
      (by simp [MjpegCodec.fresh, MjpegCodec.pending])
    rw [List.length_take]

/-- A frame of 1504 bytes, which lies in two windows. -/
def longFrame : List UInt8 := [0xFF, 0xD8] ++ List.replicate 1500 0 ++ [0xFF, 0xD9]

/-- The length of the frame. -/
theorem length_longFrame : longFrame.length = 1504 := by
  rw [longFrame, List.length_append, List.length_append, List.length_replicate]
  rfl

/-- Between its markers it is zero, -/
theorem getElem?_longFrame {i : Nat} (hlo : 2 ≤ i) (hhi : i < 1502) : longFrame[i]? = some 0 := by
  have hlen : ([0xFF, 0xD8] ++ List.replicate 1500 (0 : UInt8)).length = 1502 := by
    rw [List.length_append, List.length_replicate]
    rfl
  rw [longFrame, List.getElem?_append_left (by omega), List.getElem?_append_right hlo,
    List.getElem?_replicate, if_pos]
  show i - 2 < 1500
  omega

/-- so there are no markers in it. -/
theorem isMarker_longFrame {i : Nat} {second : UInt8} (hlo : 2 ≤ i) (hhi : i < 1502) :
    ¬ isMarker longFrame second i = true := by
  rw [isMarker_iff, getElem?_longFrame hlo hhi]
  simp

/-- It is one frame. -/
theorem nextFrame_longFrame : nextFrame longFrame = some (0, 1502) := by
  refine nextFrame_eq_some.mpr ⟨findMarker_eq_some.mpr ⟨Nat.le_refl 0, by decide +kernel, ?_⟩,
    findMarker_eq_some.mpr ⟨by decide, by decide +kernel, ?_⟩⟩
  · intro j _ hj
    omega
  · intro j hlo hhi
    simpa using isMarker_longFrame (by omega) hhi

/-- Its window edge lies between the markers, where there is no byte that a marker could start
    with. -/
theorem frameClear_longFrame (behind : UInt8) (prev : List UInt8) :
    FrameClear behind prev longFrame 0 1502 where
  header i hi hff := by
    obtain rfl : i = 0 := Nat.le_zero.mp hi
    have hlt : 0 + 1 < longFrame.length := by
      rw [length_longFrame]
      decide
    rw [seenAfter, if_neg (by decide), if_pos hlt]
    exact iff_of_true rfl rfl
  room := by decide
  third := by decide
  trailer i hlo hhi hff := by
    rw [getElem?_longFrame (by omega) hhi] at hff
    exact nomatch hff
  whole := by decide

/-- Nothing is left to be read. -/
theorem edgesClear_nil (behind : UInt8) (prev : List UInt8) : EdgesClear behind prev [] :=
  .tail rfl ⟨fun _ hi => (nomatch hi), fun _ hh => (nomatch hh), fun _ hh => (nomatch hh),
    fun _ _ hh => (nomatch hh)⟩

/-- No edge of a window splits a marker in a stream of this one frame. -/
theorem edgesClear_longFrame (behind : UInt8) (prev : List UInt8) :
    EdgesClear behind prev longFrame := by
  refine .frame nextFrame_longFrame (frameClear_longFrame behind prev) ?_
  rw [List.drop_eq_nil_of_le (i := 1502 + 2) (Nat.le_of_eq length_longFrame)]
  exact edgesClear_nil _ _

/-- It is split into itself. -/
theorem splitFrames_longFrame : splitFrames longFrame = [longFrame] := by
  rw [splitFrames_some nextFrame_longFrame, splitFrames_none, List.drop_zero]
  · rw [List.take_of_length_le (Nat.le_of_eq length_longFrame)]
  · rw [List.drop_eq_nil_of_le (Nat.le_of_eq length_longFrame)]
    rfl

/-- The reader refills its window in the middle of the frame. -/
theorem frames_eq_splitFrames_single :
    (MjpegCodec.fresh fun _ => 0).frames longFrame = splitFrames longFrame ∧
      splitFrames longFrame = [longFrame] := by
  refine ⟨frames_eq_splitFrames _ _ ?_ (edgesClear_longFrame _ _), splitFrames_longFrame⟩
  rw [length_longFrame]
  decide

/-- A file cut off inside its second frame. The reader takes the stale `D9` that the
    first frame left behind the window for the end of the second one. -/
theorem frames_ne_splitFrames_truncated :
    (MjpegCodec.fresh fun _ => 0).frames [0xFF, 0xD8, 0, 0xFF, 0xD9, 0xFF, 0xD8, 0, 0xFF] ≠
      splitFrames [0xFF, 0xD8, 0, 0xFF, 0xD9, 0xFF, 0xD8, 0, 0xFF] := by
  have hcode : (MjpegCodec.fresh fun _ => 0).frames
      [0xFF, 0xD8, 0, 0xFF, 0xD9, 0xFF, 0xD8, 0, 0xFF] =
      [[0xFF, 0xD8, 0, 0xFF, 0xD9], [0xFF, 0xD8, 0, 0xFF, 0xD9]] := by decide +kernel
  have hspec : splitFrames [0xFF, 0xD8, 0, 0xFF, 0xD9, 0xFF, 0xD8, 0, 0xFF] =
      [[0xFF, 0xD8, 0, 0xFF, 0xD9]] := by
    rw [splitFrames_some (h := 0) (t := 3) (by decide), splitFrames_none (by decide)]
    rfl
  rw [hcode, hspec]
  decide

end Ivy.Spec
