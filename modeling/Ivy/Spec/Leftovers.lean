import Ivy.Spec.ReadAccess

/-!
# What one stream leaves to the next

A reset clears the counters of the codec and not its window. A stream that fills the window
overwrites all of it. A shorter one is searched together with the byte behind it, which is left
over from the streams before; this decides whether the stream has a frame if it is `Exposed`.
-/

namespace Ivy.Spec

open Ivy.Mem Ivy.Native Ivy.Lts

/-! ## A stream of one window -/

section

variable {alloc : Nat → Bool} {c d : MjpegCodec} {input : List UInt8}

/-- The header search when the window holds all of the stream. -/
theorem searchHeader_window (hpos : 0 < d.bufRead) :
    d.searchHeader [] =
      match markerScan d.readBuf 0 0xD8 0 d.bufRead.toNat with
      | some j => ⟨true, j, d.readBuf, d.bufRead, []⟩
      | none => ⟨false, d.bufRead.toNat, d.readBuf, 0, []⟩ := by
  simp only [MjpegCodec.searchHeader, List.length_nil, headerLoop, hpos, if_true]
  cases markerScan d.readBuf 0 0xD8 0 d.bufRead.toNat with
  | some j => rfl
  | none => simp

/-- The copy loop at the header `j` of such a window. -/
def windowScan (d : MjpegCodec) (j : Nat) : TrailerScan :=
  d.copyStart ⟨true, j, d.readBuf, d.bufRead, []⟩

/-- The search for the trailer in one window. -/
theorem search_windowScan (d : MjpegCodec) (j : Nat) :
    (windowScan d j).search =
      match markerScan d.readBuf j 0xD9 3 (d.bufRead - j).toNat with
      | some t => (true, t + 2)
      | none => (false, max 3 (d.bufRead - j).toNat) := by
  rw [TrailerScan.search, if_neg (by simp [windowScan, MjpegCodec.copyStart])]
  rfl

/-- A round when the stream is used up. -/
theorem advance_windowScan (d : MjpegCodec) (j : Nat) (found : Bool) (i : Nat) :
    ((windowScan d j).advance found i).input = [] ∧
      ((windowScan d j).advance found i).inputIndex = d.inputIndex ∧
      ((windowScan d j).advance found i).bufRead = (d.bufRead - j - i).toNat := by
  refine ⟨?_, ?_, ?_⟩
  · rw [advance_input]
    exact List.drop_nil
  · unfold TrailerScan.advance
    dsimp only [windowScan, MjpegCodec.copyStart]
    split <;> simp
  · rw [advance_bufRead]
    simp [windowScan, MjpegCodec.copyStart]

/-- The copy loop makes one round. -/
theorem searchTrailer_window (alloc : Nat → Bool) {j : Nat} (hpos : 0 < d.bufRead - j)
    (hfits : d.bufRead ≤ 1024) :
    d.searchTrailer alloc ⟨true, j, d.readBuf, d.bufRead, []⟩ =
      .ok ((windowScan d j).advance (windowScan d j).search.1 (windowScan d j).search.2) := by
  rw [MjpegCodec.searchTrailer,
    trailerLoop_copyStart alloc _ _ hpos (by dsimp only; omega)]
  show trailerLoop alloc _ _
    ((windowScan d j).advance (windowScan d j).search.1 (windowScan d j).search.2) = _
  -- the loop ends with the trailer, or as the window is used up
  by_cases hfound : (windowScan d j).search.1 = true
  · exact trailerLoop_of_found _ _ ((advance_found ..).trans hfound)
  · apply trailerLoop_of_empty
    have hle := bufRead_le_search_snd (Bool.eq_false_iff.mpr hfound)
    have hstart : (windowScan d j).bufRead = d.bufRead - j := rfl
    rw [(advance_windowScan ..).2.2]
    omega

variable (halloc : alloc 0 = true) (hfirst : c.firstRead input = (d, []))
  (hpos : 0 < d.bufRead) (hfits : d.bufRead ≤ 1024)

include halloc hfirst hpos

/-- A window without a header is given up. -/
theorem readFrame_no_header (hscan : markerScan d.readBuf 0 0xD8 0 d.bufRead.toNat = none) :
    c.readFrame alloc input =
      (none, { d with bufRead := 0 - d.bufRead.toNat, readBufOffset := 0 }, []) := by
  have hheader := searchHeader_window hpos
  rw [hscan] at hheader
  rw [MjpegCodec.readFrame, if_neg (by simp [halloc]), hfirst]
  dsimp only
  rw [hheader, if_neg (by dsimp only; omega)]

include hfits

/-- A call that finds its header in the window. -/
theorem readFrame_window {j : Nat}
    (hscan : markerScan d.readBuf 0 0xD8 0 d.bufRead.toNat = some j) :
    c.readFrame alloc input =
      (if (windowScan d j).search.1 then some (load d.readBuf j (windowScan d j).search.2)
        else none,
        ((windowScan d j).advance (windowScan d j).search.1 (windowScan d j).search.2).toCodec,
        []) := by
  have hlt := (markerScan_eq_some.mp hscan).2.1
  have hheader := searchHeader_window hpos
  rw [hscan] at hheader
  have htrailer := searchTrailer_window alloc (j := j) (by omega) hfits
  generalize hr : (windowScan d j).advance (windowScan d j).search.1
    (windowScan d j).search.2 = r at htrailer
  -- the block is what was searched
  have hdata : r.data = load d.readBuf j (windowScan d j).search.2 ∧
      r.data.length ≤ r.dataSize := by
    have hle := Nat.le_max_right (windowScan d j).dataSize
      ((windowScan d j).data.length + (windowScan d j).search.2)
    rw [← hr, TrailerScan.advance]
    dsimp only
    split <;> exact ⟨rfl, by rwa [List.length_append, length_load]⟩
  have hfound : r.found = (windowScan d j).search.1 := hr ▸ advance_found ..
  have hinput : r.input = [] := hr ▸ (advance_windowScan ..).1
  rw [MjpegCodec.readFrame, if_neg (by simp [halloc]), hfirst]
  dsimp only
  rw [hheader, if_pos (by dsimp only; omega), htrailer]
  dsimp only
  rw [← hdata.1, hfound, hinput]
  cases (windowScan d j).search.1 with
  | true => simp [hdata.2]
  | false => simp

end

/-! ## Codecs that cannot be told apart -/

/-- The codec has nothing left to search. -/
structure Drained (c : MjpegCodec) : Prop where
  index : c.inputIndex ≠ 0
  bufRead : c.bufRead ≤ 0

/-- The memories agree below `m`. -/
def AgreeBelow (m : Nat) (buf₁ buf₂ : Nat → UInt8) : Prop := ∀ j, j < m → buf₁ j = buf₂ j

section

variable {m : Nat} {buf₁ buf₂ : Nat → UInt8}

/-- Equal cells are loaded alike, -/
theorem AgreeBelow.load_eq (h : AgreeBelow m buf₁ buf₂) {p n : Nat} (hle : p + n ≤ m) :
    load buf₁ p n = load buf₂ p n :=
  load_congr fun j _ hj => h j (by omega)

/-- and searched alike. -/
theorem AgreeBelow.markerScan_eq (h : AgreeBelow m buf₁ buf₂) {p stop : Nat} (start : Nat)
    (hle : p + stop < m) (second : UInt8) :
    markerScan buf₁ p second start stop = markerScan buf₂ p second start stop := by
  -- a marker is two cells
  have hat : ∀ j, j < stop → markerAt buf₁ second (p + j) = markerAt buf₂ second (p + j) := by
    intro j hj
    rw [markerAt, markerAt, h (p + j) (by omega), h (p + j + 1) (by omega)]
  cases hscan : markerScan buf₂ p second start stop with
  | some j =>
    obtain ⟨hs, hlt, hm, hno⟩ := markerScan_eq_some.mp hscan
    refine markerScan_eq_some.mpr ⟨hs, hlt, (hat j hlt).trans hm, fun i hi hij => ?_⟩
    exact (hat i (by omega)).trans (hno i hi hij)
  | none =>
    refine markerScan_eq_none.mpr fun j hj hlt => ?_
    exact (hat j hlt).trans (markerScan_eq_none.mp hscan j hj hlt)

/-- A round that copies the same bytes out of windows that agree leaves memories that agree. -/
theorem AgreeBelow.advance {s₁ s₂ : TrailerScan} (h : AgreeBelow m s₁.buf s₂.buf)
    (hp : s₁.p = s₂.p) (hread : s₁.bufRead = s₂.bufRead) (hinput : s₁.input = s₂.input)
    (hle : s₂.p + s₂.bufRead ≤ m) (found : Bool) (i : Nat) :
    AgreeBelow m (s₁.advance found i).buf (s₂.advance found i).buf := by
  intro j hj
  unfold TrailerScan.advance
  rw [hp, hread, hinput]
  dsimp only
  split
  · rename_i ho
    dsimp only
    rw [h.load_eq (by omega)]
    exact store_congr _ _ (store_congr _ _ (h j hj))
  · dsimp only
    exact store_congr _ _ (h j hj)

/-- The codecs after a round of the copy loop over windows that agree. -/
theorem AgreeBelow.copied {d₁ d₂ : MjpegCodec} (h : AgreeBelow m d₁.readBuf d₂.readBuf)
    (hread : d₁.bufRead = d₂.bufRead) (hle : d₂.bufRead ≤ m) (j : Nat) (found : Bool) (i : Nat) :
    AgreeBelow m ((windowScan d₁ j).advance found i).toCodec.readBuf
        ((windowScan d₂ j).advance found i).toCodec.readBuf ∧
      ((windowScan d₁ j).advance found i).toCodec.bufRead =
        ((windowScan d₂ j).advance found i).toCodec.bufRead := by
  constructor
  · have hscan : AgreeBelow m (windowScan d₁ j).buf (windowScan d₂ j).buf := h
    refine hscan.advance rfl ?_ rfl ?_ found i
    · show d₁.bufRead - j = d₂.bufRead - j
      rw [hread]
    · show (j : Int) + (d₂.bufRead - j) ≤ m
      omega
  · show ((windowScan d₁ j).advance found i).bufRead =
      ((windowScan d₂ j).advance found i).bufRead
    rw [(advance_windowScan ..).2.2, (advance_windowScan ..).2.2, hread]

end

/-- Two codecs that have read the same stream to its end, with windows that agree, also on two
    bytes behind their end. -/
structure Agree (m : Nat) (c₁ c₂ : MjpegCodec) : Prop where
  bufRead : c₁.bufRead = c₂.bufRead
  index₁ : c₁.inputIndex ≠ 0
  index₂ : c₂.inputIndex ≠ 0
  buf : AgreeBelow m c₁.readBuf c₂.readBuf
  room : c₂.bufRead + 2 ≤ m
  fits : m ≤ 1024

/-- A round of the copy loop over windows that agree leaves codecs that agree. -/
theorem AgreeBelow.agree {m : Nat} {d₁ d₂ : MjpegCodec}
    (h : AgreeBelow m d₁.readBuf d₂.readBuf) (hread : d₁.bufRead = d₂.bufRead)
    (hindex₁ : d₁.inputIndex ≠ 0) (hindex₂ : d₂.inputIndex ≠ 0) (hle : d₂.bufRead ≤ m)
    (hfits : m ≤ 1024) {j i : Nat} (hroom : d₂.bufRead - j - i + 2 ≤ m) (hm : 2 ≤ m)
    (found : Bool) :
    Agree m ((windowScan d₁ j).advance found i).toCodec
      ((windowScan d₂ j).advance found i).toCodec := by
  obtain ⟨hbuf, hread'⟩ := h.copied hread hle j found i
  obtain ⟨-, hsame₁, -⟩ := advance_windowScan d₁ j found i
  obtain ⟨-, hsame₂, hleft⟩ := advance_windowScan d₂ j found i
  refine ⟨hread', ?_, ?_, hbuf, ?_, hfits⟩
  · exact fun hzero => hindex₁ (hsame₁.symm.trans hzero)
  · exact fun hzero => hindex₂ (hsame₂.symm.trans hzero)
  · show ((windowScan d₂ j).advance _ _).bufRead + 2 ≤ (m : Int)
    rw [hleft]
    omega

/-- Only the first call reads ahead. -/
theorem firstRead_of_ne_zero {c : MjpegCodec} (h : c.inputIndex ≠ 0) (input : List UInt8) :
    c.firstRead input = (c, input) := if_neg h

/-- Without memory the call does nothing. -/
theorem readFrame_of_alloc {alloc : Nat → Bool} (h : alloc 0 = false) (c : MjpegCodec)
    (input : List UInt8) : c.readFrame alloc input = (none, c, input) := if_pos h

/-- A codec without bytes finds nothing. -/
theorem Drained.readFrame {c : MjpegCodec} (hc : Drained c) (alloc : Nat → Bool) :
    ∃ d, c.readFrame alloc [] = (none, d, []) ∧ Drained d := by
  cases halloc : alloc 0 with
  | false => exact ⟨c, readFrame_of_alloc halloc c [], hc⟩
  | true =>
    have hread := hc.bufRead
    have hheader : c.searchHeader [] = ⟨false, 0, c.readBuf, c.bufRead, []⟩ :=
      if_neg (by omega)
    refine ⟨{ c with bufRead := c.bufRead - (0 : Nat), readBufOffset := 0 }, ?_, hc.index, ?_⟩
    · rw [MjpegCodec.readFrame, if_neg (by simp [halloc]), firstRead_of_ne_zero hc.index]
      dsimp only
      rw [hheader, if_neg (by dsimp only; omega)]
    · dsimp only
      omega

/-- What follows a call: the same block, and codecs that have read everything. -/
theorem Agree.readFrame {m : Nat} {c₁ c₂ : MjpegCodec} (h : Agree m c₁ c₂)
    (alloc : Nat → Bool) :
    ∃ data d₁ d₂, c₁.readFrame alloc [] = (data, d₁, []) ∧
      c₂.readFrame alloc [] = (data, d₂, []) ∧ (Agree m d₁ d₂ ∨ Drained d₁ ∧ Drained d₂) := by
  cases halloc : alloc 0 with
  | false =>
    exact ⟨none, c₁, c₂, readFrame_of_alloc halloc .., readFrame_of_alloc halloc .., .inl h⟩
  | true =>
  have hfirst₁ := firstRead_of_ne_zero h.index₁ []
  have hfirst₂ := firstRead_of_ne_zero h.index₂ []
  have hroom := h.room
  have hfits := h.fits
  -- with bytes in the window both search, without they find nothing
  by_cases hpos : 0 < c₂.bufRead
  · have hpos₁ : 0 < c₁.bufRead := by rwa [h.bufRead]
    have hheader := h.buf.markerScan_eq 0 (show 0 + c₂.bufRead.toNat < m by omega) 0xD8
    cases hscan : markerScan c₂.readBuf 0 0xD8 0 c₂.bufRead.toNat with
    | none =>
      have h₁ := readFrame_no_header halloc hfirst₁ hpos₁ (by rw [h.bufRead, hheader, hscan])
      have h₂ := readFrame_no_header halloc hfirst₂ hpos hscan
      exact ⟨none, _, _, h₁, h₂, .inr ⟨⟨h.index₁, by dsimp only; omega⟩,
        ⟨h.index₂, by dsimp only; omega⟩⟩⟩
    | some j =>
      -- the same header, the same trailer, the same block
      have hlt := (markerScan_eq_some.mp hscan).2.1
      have htrailer := h.buf.markerScan_eq 3 (show j + (c₂.bufRead - j).toNat < m by omega) 0xD9
      have h₁ := readFrame_window halloc hfirst₁ hpos₁ (by rw [h.bufRead]; omega)
        (by rw [h.bufRead, hheader, hscan])
      have h₂ := readFrame_window halloc hfirst₂ hpos (by omega) hscan
      have hsearch : (windowScan c₁ j).search = (windowScan c₂ j).search := by
        rw [search_windowScan, search_windowScan, h.bufRead, htrailer]
      have hstart : (windowScan c₂ j).bufRead = c₂.bufRead - j ∧ (windowScan c₂ j).i = 3 :=
        ⟨rfl, rfl⟩
      have hle := search_snd_le (windowScan c₂ j)
      have hload : load c₁.readBuf j (windowScan c₂ j).search.2 =
          load c₂.readBuf j (windowScan c₂ j).search.2 := h.buf.load_eq (by omega)
      rw [hsearch, hload] at h₁
      refine ⟨_, _, _, h₁, h₂, .inl ?_⟩
      exact h.buf.agree h.bufRead h.index₁ h.index₂ (by omega) hfits (by omega) (by omega) _
  · obtain ⟨d₁, h₁, hd₁⟩ := Drained.readFrame ⟨h.index₁, by rw [h.bufRead]; omega⟩ alloc
    obtain ⟨d₂, h₂, hd₂⟩ := Drained.readFrame ⟨h.index₂, by omega⟩ alloc
    exact ⟨none, d₁, d₂, h₁, h₂, .inr ⟨hd₁, hd₂⟩⟩

/-! ## The first call -/

/-- A short stream whose first header has no trailer behind it, but an `FF` at its end that the
    search for the trailer looks at. -/
def Exposed (B : List UInt8) : Prop :=
  B.length < 1024 ∧ B.getLast? = some 0xFF ∧
    ∃ h, findMarker B 0xD8 0 = some h ∧ h + 4 ≤ B.length ∧ findMarker (B.drop h) 0xD9 3 = none

section

variable {alloc : Nat → Bool} {c : MjpegCodec} {B : List UInt8}

/-- The codec after the first read of a stream. -/
def loaded (c : MjpegCodec) (B : List UInt8) : MjpegCodec := (c.firstRead B).1

/-- The first read of a stream that does not fill the window. -/
structure ShortRead (c : MjpegCodec) (B : List UInt8) : Prop where
  firstRead : c.firstRead B = (loaded c B, [])
  readBuf : (loaded c B).readBuf = store c.readBuf 0 B
  bufRead : (loaded c B).bufRead = B.length
  window : ∀ h, load (loaded c B).readBuf h (B.length - h) = B.drop h
  index : B ≠ [] → (loaded c B).inputIndex ≠ 0

/-- The first call on a short stream has it all in the window. -/
theorem shortRead (hc : c.inputIndex = 0) (hlen : B.length ≤ 1024) : ShortRead c B := by
  have htake : B.take 1024 = B := List.take_of_length_le hlen
  have hbuf : (loaded c B).readBuf = store c.readBuf 0 B := by
    simp [loaded, MjpegCodec.firstRead, hc, htake]
  refine ⟨?_, hbuf, ?_, fun h => ?_, fun hB => ?_⟩
  · simp [loaded, MjpegCodec.firstRead, hc, List.drop_of_length_le hlen]
  · simp [loaded, MjpegCodec.firstRead, hc, htake]
  · rw [hbuf, show load (store c.readBuf 0 B) h (B.length - h) =
      load (store c.readBuf 0 B) (0 + h) (B.length - h) by rw [Nat.zero_add], ← drop_load,
      load_store]
  · have hpos := List.length_pos_iff.mpr hB
    -- a window's length does not wrap round
    have hindex : (loaded c B).inputIndex = UInt32.ofNat B.length := by
      simp [loaded, MjpegCodec.firstRead, hc, htake]
    rw [hindex]
    intro hzero
    have := congrArg UInt32.toNat hzero
    simp only [UInt32.toNat_ofNat', UInt32.toNat_zero] at this
    omega

section

variable (alloc) (hs : ShortRead c B) (hB : B ≠ []) (hlen : B.length ≤ 1024)
  (halloc : alloc 0 = true)

include hs hB hlen halloc

/-- Without a header the call returns nothing. -/
theorem ShortRead.no_header
    (hscan : markerScan (loaded c B).readBuf 0 0xD8 0 B.length = none) :
    ∃ d, c.readFrame alloc B = (none, d, []) ∧ d.readBuf = (loaded c B).readBuf ∧ Drained d := by
  have hpos := List.length_pos_iff.mpr hB
  have hread := hs.bufRead
  have hcall := readFrame_no_header halloc hs.firstRead (by omega)
    (by rw [hread, Int.toNat_natCast]; exact hscan)
  exact ⟨_, hcall, rfl, hs.index hB, by dsimp only; omega⟩

/-- With a header and no trailer the call returns nothing. -/
theorem ShortRead.no_trailer {j : Nat}
    (hscan : markerScan (loaded c B).readBuf 0 0xD8 0 B.length = some j)
    (htrailer : markerScan (loaded c B).readBuf j 0xD9 3 (B.length - j) = none) :
    ∃ d, c.readFrame alloc B = (none, d, []) ∧ Drained d := by
  have hpos := List.length_pos_iff.mpr hB
  have hread := hs.bufRead
  have hcall := readFrame_window halloc hs.firstRead (by omega) (by omega)
    (by rw [hread, Int.toNat_natCast]; exact hscan)
  -- without a trailer the window is used up
  have hsearch : (windowScan (loaded c B) j).search = (false, max 3 (B.length - j)) := by
    rw [search_windowScan, hread, show ((B.length : Int) - j).toNat = B.length - j by omega,
      htrailer]
  rw [hsearch] at hcall
  obtain ⟨-, hindex, hrest⟩ := advance_windowScan (loaded c B) j false (max 3 (B.length - j))
  refine ⟨_, hcall, fun hzero => hs.index hB (hindex.symm.trans hzero), ?_⟩
  show ((windowScan (loaded c B) j).advance _ _).bufRead ≤ 0
  rw [hrest, hread]
  omega

/-- With both it returns the bytes between them. -/
theorem ShortRead.trailer {j t : Nat}
    (hscan : markerScan (loaded c B).readBuf 0 0xD8 0 B.length = some j)
    (htrailer : markerScan (loaded c B).readBuf j 0xD9 3 (B.length - j) = some t) :
    c.readFrame alloc B = (some (load (loaded c B).readBuf j (t + 2)),
      ((windowScan (loaded c B) j).advance true (t + 2)).toCodec, []) := by
  have hpos := List.length_pos_iff.mpr hB
  have hread := hs.bufRead
  have hcall := readFrame_window halloc hs.firstRead (by omega) (by omega)
    (by rw [hread, Int.toNat_natCast]; exact hscan)
  have hsearch : (windowScan (loaded c B) j).search = (true, t + 2) := by
    rw [search_windowScan, hread, show ((B.length : Int) - j).toNat = B.length - j by omega,
      htrailer]
  rw [hsearch] at hcall
  exact hcall

end

/-- The first header inside the stream. -/
theorem ShortRead.header_scan (hs : ShortRead c B) {h : Nat}
    (hfind : findMarker B 0xD8 0 = some h) :
    markerScan (loaded c B).readBuf 0 0xD8 0 B.length = some h := by
  have hwindow := hs.window 0
  rw [Nat.sub_zero, List.drop_zero] at hwindow
  rw [markerScan_eq_findMarker (.inl (by rw [hwindow, hfind]; rfl)), hwindow, hfind]

/-- A call on a short stream that is not exposed: nothing, or a frame inside the stream, whatever
    the codec has read before. -/
theorem first_call (hB : B ≠ []) (hlen : B.length < 1024) (hexp : ¬ Exposed B) :
    (∀ (c : MjpegCodec) (alloc : Nat → Bool), c.inputIndex = 0 → alloc 0 = true →
      ∃ d, c.readFrame alloc B = (none, d, []) ∧ Drained d) ∨
    ∃ h t, 3 ≤ t ∧ h + t + 1 < B.length ∧ ∀ c : MjpegCodec, c.inputIndex = 0 →
      markerScan (loaded c B).readBuf 0 0xD8 0 B.length = some h ∧
        markerScan (loaded c B).readBuf h 0xD9 3 (B.length - h) = some t := by
  cases hheader : findMarker B 0xD8 0 with
  | none =>
    refine .inl fun c alloc hc halloc => ?_
    have hs := shortRead hc (Nat.le_of_lt hlen)
    cases hscan : markerScan (loaded c B).readBuf 0 0xD8 0 B.length with
    | none =>
      obtain ⟨d, hcall, -, hd⟩ := hs.no_header alloc hB (Nat.le_of_lt hlen) halloc hscan
      exact ⟨d, hcall, hd⟩
    | some j =>
      -- a header made up by the byte behind the stream is too short for a trailer
      obtain ⟨-, hlt, hm, -⟩ := markerScan_eq_some.mp hscan
      have hlast : ¬ j + 1 < B.length := by
        intro hj
        have hwindow := hs.window 0
        rw [Nat.sub_zero, List.drop_zero] at hwindow
        rw [markerAt_load hj, hwindow, findMarker_eq_none.mp hheader j (Nat.zero_le j)] at hm
        exact nomatch hm
      have htrailer : markerScan (loaded c B).readBuf j 0xD9 3 (B.length - j) = none :=
        markerScan_eq_none.mpr fun i hi hilt => by omega
      exact hs.no_trailer alloc hB (Nat.le_of_lt hlen) halloc hscan htrailer
  | some h =>
    cases htrailer : findMarker (B.drop h) 0xD9 3 with
    | some t =>
      obtain ⟨hle, hm, -⟩ := findMarker_eq_some.mp htrailer
      have hlt := isMarker_lt hm
      rw [List.length_drop] at hlt
      refine .inr ⟨h, t, hle, by omega, fun c hc => ?_⟩
      have hs := shortRead hc (Nat.le_of_lt hlen)
      refine ⟨hs.header_scan hheader, ?_⟩
      rw [markerScan_eq_findMarker (.inl (by rw [hs.window, htrailer]; rfl)), hs.window, htrailer]
    | none =>
      refine .inl fun c alloc hc halloc => ?_
      have hs := shortRead hc (Nat.le_of_lt hlen)
      refine hs.no_trailer alloc hB (Nat.le_of_lt hlen) halloc (hs.header_scan hheader) ?_
      -- the search for the trailer is empty or does not end at an `FF`
      have hend : B.length - h ≤ 3 ∨ (B.drop h).getLast? ≠ some 0xFF := by
        by_cases hfew : B.length - h ≤ 3
        · exact .inl hfew
        · refine .inr fun hff => hexp ⟨hlen, ?_, h, hheader, by omega, htrailer⟩
          rwa [List.getLast?_drop, if_neg (by omega)] at hff
      rw [markerScan_eq_findMarker (.inr (by rwa [hs.window])), hs.window, htrailer]

/-- On an exposed stream the byte behind it decides whether there is a frame. -/
theorem Exposed.readFrame (hexp : Exposed B) (hc : c.inputIndex = 0) :
    (c.readFrame (fun _ => true) B).1.isSome ↔ c.readBuf B.length = 0xD9 := by
  obtain ⟨hlen, hlast, h, hheader, hroom, hnone⟩ := hexp
  have hB : B ≠ [] := by rintro rfl; simp at hroom
  have hs := shortRead hc (Nat.le_of_lt hlen)
  have hscan := hs.header_scan hheader
  -- inside the stream there is no trailer
  have hcells : ∀ j, 3 ≤ j → j + 1 < B.length - h →
      markerAt (loaded c B).readBuf 0xD9 (h + j) = false := by
    intro j hj hlt
    rw [markerAt_load hlt, hs.window]
    exact findMarker_eq_none.mp hnone j hj
  -- the test of the last byte sees the cell behind the stream
  have hend : markerAt (loaded c B).readBuf 0xD9 (h + (B.length - h - 1)) =
      (c.readBuf B.length == 0xD9) := by
    have hff : (loaded c B).readBuf (B.length - 1) = 0xFF := by
      have hwindow := hs.window 0
      rw [Nat.sub_zero, List.drop_zero] at hwindow
      rw [← hwindow, getLast?_load (by omega), Nat.zero_add] at hlast
      exact Option.some.inj hlast
    have hbehind : (loaded c B).readBuf B.length = c.readBuf B.length := by
      rw [hs.readBuf]
      exact store_of_ge _ _ (by omega)
    rw [markerAt, show h + (B.length - h - 1) = B.length - 1 by omega,
      show B.length - 1 + 1 = B.length by omega, hff, hbehind]
    rfl
  by_cases hd9 : c.readBuf B.length = 0xD9
  · have htrailer : markerScan (loaded c B).readBuf h 0xD9 3 (B.length - h) =
        some (B.length - h - 1) :=
      markerScan_eq_some.mpr ⟨by omega, by omega, by simp [hend, hd9],
        fun j hj hlt => hcells j hj (by omega)⟩
    rw [hs.trailer _ hB (Nat.le_of_lt hlen) rfl hscan htrailer]
    simp [hd9]
  · have htrailer : markerScan (loaded c B).readBuf h 0xD9 3 (B.length - h) = none := by
      refine markerScan_eq_none.mpr fun j hj hlt => ?_
      by_cases hin : j + 1 < B.length - h
      · exact hcells j hj hin
      · rw [show j = B.length - h - 1 by omega, hend]
        simpa using hd9
    obtain ⟨d, hcall, -⟩ := hs.no_trailer (fun _ => true) hB (Nat.le_of_lt hlen) rfl
      hscan htrailer
    rw [hcall]
    simp [hd9]

end

/-! ## All calls -/

/-- Codecs that read `B` alike: they have not begun, have read it to its end, or are the same. -/
inductive Alike (B : List UInt8) : MjpegCodec → MjpegCodec → List UInt8 → Prop
  | unread {c₁ c₂ : MjpegCodec} (h₁ : c₁.inputIndex = 0) (h₂ : c₂.inputIndex = 0)
      (hbehind : ∀ j, 1024 ≤ j → c₁.readBuf j = c₂.readBuf j) : Alike B c₁ c₂ B
  | agree {m : Nat} {c₁ c₂ : MjpegCodec} (h : Agree m c₁ c₂) : Alike B c₁ c₂ []
  | drained {c₁ c₂ : MjpegCodec} (h₁ : Drained c₁) (h₂ : Drained c₂) : Alike B c₁ c₂ []
  | same {c : MjpegCodec} {rest : List UInt8} : Alike B c c rest

section

variable {alloc : Nat → Bool} {B rest : List UInt8} {c c₁ c₂ : MjpegCodec}

/-- A call on an empty stream. -/
theorem readFrame_nil (halloc : alloc 0 = true) (hc : c.inputIndex = 0) :
    ∃ d, c.readFrame alloc [] = (none, d, []) ∧ d.inputIndex = 0 ∧ d.readBuf = c.readBuf := by
  refine ⟨{ c with bufRead := 0, readBufOffset := 0 }, ?_, hc, rfl⟩
  simp [MjpegCodec.readFrame, halloc, MjpegCodec.firstRead, hc, MjpegCodec.searchHeader,
    headerLoop]

/-- The first call on a stream that is not exposed. -/
theorem alike_unread (hexp : ¬ Exposed B) (halloc : alloc 0 = true) (h₁ : c₁.inputIndex = 0)
    (h₂ : c₂.inputIndex = 0) (hbehind : ∀ j, 1024 ≤ j → c₁.readBuf j = c₂.readBuf j) :
    ∃ data d₁ d₂ rest, c₁.readFrame alloc B = (data, d₁, rest) ∧
      c₂.readFrame alloc B = (data, d₂, rest) ∧ Alike B d₁ d₂ rest := by
  -- a full window hides the past
  by_cases hlen : 1024 ≤ B.length
  · exact ⟨_, _, _, _, readFrame_of_full halloc h₁ h₂ hbehind hlen, rfl, .same⟩
  by_cases hB : B = []
  · subst hB
    obtain ⟨d₁, hcall₁, hindex₁, hbuf₁⟩ := readFrame_nil halloc h₁
    obtain ⟨d₂, hcall₂, hindex₂, hbuf₂⟩ := readFrame_nil halloc h₂
    refine ⟨none, d₁, d₂, [], hcall₁, hcall₂, .unread hindex₁ hindex₂ ?_⟩
    rwa [hbuf₁, hbuf₂]
  rcases first_call hB (by omega) hexp with hnone | ⟨h, t, hle, hlt, hscan⟩
  · obtain ⟨d₁, hcall₁, hd₁⟩ := hnone c₁ alloc h₁ halloc
    obtain ⟨d₂, hcall₂, hd₂⟩ := hnone c₂ alloc h₂ halloc
    exact ⟨none, d₁, d₂, [], hcall₁, hcall₂, .drained hd₁ hd₂⟩
  · have hs₁ := shortRead (B := B) h₁ (by omega)
    have hs₂ := shortRead (B := B) h₂ (by omega)
    -- the first frame is at the same place for both
    obtain ⟨hheader₁, htrailer₁⟩ := hscan c₁ h₁
    obtain ⟨hheader₂, htrailer₂⟩ := hscan c₂ h₂
    have hcall₁ := hs₁.trailer alloc hB (by omega) halloc hheader₁ htrailer₁
    have hcall₂ := hs₂.trailer alloc hB (by omega) halloc hheader₂ htrailer₂
    -- the windows agree on the stream, and the frame lies in it
    have hread : (loaded c₁ B).bufRead = (loaded c₂ B).bufRead :=
      hs₁.bufRead.trans hs₂.bufRead.symm
    have hread₂ := hs₂.bufRead
    have hbuf : AgreeBelow B.length (loaded c₁ B).readBuf (loaded c₂ B).readBuf := by
      intro j hj
      have hget : B[j]? = some B[j] := List.getElem?_eq_getElem hj
      have hcell := fun buf => store_of_getElem? buf (o := 0) hget
      rw [Nat.zero_add] at hcell
      rw [hs₁.readBuf, hs₂.readBuf, hcell, hcell]
    rw [hbuf.load_eq (by omega)] at hcall₁
    have hagree := hbuf.agree hread (hs₁.index hB) (hs₂.index hB) (by omega) (by omega)
      (show (loaded c₂ B).bufRead - h - (t + 2 : Nat) + 2 ≤ B.length by omega) (by omega) true
    exact ⟨_, _, _, _, hcall₁, hcall₂, .agree hagree⟩

/-- Codecs that are alike read the same frame and stay alike. -/
theorem Alike.readFrame (hexp : ¬ Exposed B) (h : Alike B c₁ c₂ rest) (alloc : Nat → Bool) :
    ∃ data d₁ d₂ rest', c₁.readFrame alloc rest = (data, d₁, rest') ∧
      c₂.readFrame alloc rest = (data, d₂, rest') ∧ Alike B d₁ d₂ rest' := by
  cases h with
  -- the four ways in which they are alike
  | unread h₁ h₂ hbehind =>
    cases halloc : alloc 0 with
    | false =>
      exact ⟨none, c₁, c₂, B, readFrame_of_alloc halloc .., readFrame_of_alloc halloc ..,
        .unread h₁ h₂ hbehind⟩
    | true => exact alike_unread hexp halloc h₁ h₂ hbehind
  | agree h =>
    obtain ⟨data, d₁, d₂, hcall₁, hcall₂, hafter⟩ := h.readFrame alloc
    refine ⟨data, d₁, d₂, [], hcall₁, hcall₂, ?_⟩
    rcases hafter with hafter | ⟨hd₁, hd₂⟩
    · exact .agree hafter
    · exact .drained hd₁ hd₂
  | drained h₁ h₂ =>
    obtain ⟨d₁, hcall₁, hd₁⟩ := h₁.readFrame alloc
    obtain ⟨d₂, hcall₂, hd₂⟩ := h₂.readFrame alloc
    exact ⟨none, d₁, d₂, [], hcall₁, hcall₂, .drained hd₁ hd₂⟩
  | same => exact ⟨_, _, _, _, rfl, rfl, .same⟩

end

/-- What the calls return, one by one; `allocs` are the outcomes of their allocations. -/
def results (c : MjpegCodec) (input : List UInt8) :
    List (Nat → Bool) → List (Option (List UInt8))
  | [] => []
  | alloc :: allocs =>
    let r := c.readFrame alloc input
    r.1 :: results r.2.1 r.2.2 allocs

/-- So all their frames are the same. -/
theorem Alike.results_eq {B rest : List UInt8} {c₁ c₂ : MjpegCodec} (hexp : ¬ Exposed B)
    (h : Alike B c₁ c₂ rest) (allocs : List (Nat → Bool)) :
    results c₁ rest allocs = results c₂ rest allocs := by
  induction allocs generalizing c₁ c₂ rest with
  | nil => rfl
  | cons alloc allocs ih =>
    obtain ⟨data, d₁, d₂, rest', h₁, h₂, hafter⟩ := h.readFrame hexp alloc
    simp only [results, h₁, h₂, ih hafter]

/-- What was read before: the first stream and the calls. -/
structure Past where
  stream : List UInt8
  calls : List ReadCall

/-- The codec after a history and a reset. -/
def Past.codec (behind : Nat → UInt8) (h : Past) : MjpegCodec :=
  (h.calls.foldl Reading.step (.init behind h.stream)).codec.resetInputStatus

/-- No history writes behind the window. -/
theorem Past.behind (behind : Nat → UInt8) (h : Past) {j : Nat} (hj : 1024 ≤ j) :
    (h.codec behind).readBuf j = (MjpegCodec.fresh behind).readBuf j := by
  have hempty : (0 : Int) ≤ 1024 := by decide
  -- no call writes behind the buffer
  have hrun : ∀ (calls : List ReadCall) (r : Reading),
      Bounded (MjpegCodec.fresh behind).readBuf r.codec.readBuf r.codec.bufRead →
      Bounded (MjpegCodec.fresh behind).readBuf
        (calls.foldl Reading.step r).codec.readBuf (calls.foldl Reading.step r).codec.bufRead := by
    intro calls
    induction calls with
    | nil => exact fun r hr => hr
    | cons call calls ih =>
      intro r hr
      apply ih
      cases call with
      | readFrame alloc => exact readFrame_bounded alloc r.rest hr
      | resetInputStatus stream => cases stream <;> exact ⟨hempty, hr.behind⟩
  exact (hrun h.calls (.init behind h.stream) ⟨hempty, fun _ _ => rfl⟩).behind j hj

/-- A history that leaves `D9` in cell `n`. -/
def Past.leaving (n : Nat) : Past :=
  ⟨List.replicate n 0 ++ [0xD9], [.readFrame fun _ => true]⟩

/-- There is a past that leaves a `D9` at any place of the buffer. -/
theorem Past.leaving_cell (behind : Nat → UInt8) {n : Nat} (hn : n < 1024) :
    ((Past.leaving n).codec behind).readBuf n = 0xD9 := by
  have hs : ShortRead (.fresh behind) (List.replicate n 0 ++ [0xD9]) :=
    shortRead rfl (by simp; omega)
  have hwindow := hs.window 0
  rw [Nat.sub_zero, List.drop_zero] at hwindow
  -- there is no `FF` in the stream, so nothing is found and nothing is moved
  have hff : ∀ j, j < n + 1 → (loaded (.fresh behind)
      (List.replicate n 0 ++ [0xD9])).readBuf j ≠ 0xFF := by
    intro j hj hcell
    have hget := getElem?_load (loaded (.fresh behind)
      (List.replicate n 0 ++ [0xD9])).readBuf (p := 0) (i := j)
      (show j < (List.replicate n 0 ++ [(0xD9 : UInt8)]).length by simpa using hj)
    rw [hwindow, Nat.zero_add, hcell, List.getElem?_append] at hget
    split at hget
    · simp [List.getElem?_replicate] at hget
    · rw [show j - (List.replicate n (0 : UInt8)).length = 0 by simp; omega] at hget
      simp at hget
  have hscan : markerScan (loaded (.fresh behind) (List.replicate n 0 ++ [0xD9])).readBuf 0 0xD8 0
      (List.replicate n 0 ++ [(0xD9 : UInt8)]).length = none := by
    refine markerScan_eq_none.mpr fun j _ hj => ?_
    rw [Nat.zero_add, markerAt]
    simp [hff j (by simpa using hj)]
  obtain ⟨d, hcall, hbuf, -⟩ := hs.no_header (fun _ => true) (by simp) (by simp; omega)
    rfl hscan
  show ((MjpegCodec.fresh behind).readFrame (fun _ => true)
    (List.replicate n 0 ++ [0xD9])).2.1.readBuf n = 0xD9
  rw [hcall]
  show d.readBuf n = 0xD9
  rw [hbuf, hs.readBuf]
  have hget : (List.replicate n 0 ++ [(0xD9 : UInt8)])[n]? = some 0xD9 := by simp
  simpa using store_of_getElem? (MjpegCodec.fresh behind).readBuf (o := 0) hget

/-- For every stream: its frames are the same after all histories exactly if it is not
    exposed. -/
theorem results_independent_iff (B : List UInt8) :
    (∀ (behind : Nat → UInt8) (h₁ h₂ : Past) (allocs : List (Nat → Bool)),
      results (h₁.codec behind) B allocs = results (h₂.codec behind) B allocs) ↔
      ¬ Exposed B := by
  constructor
  · intro hall hexp
    have hsame := hall (fun _ => 0) ⟨[], []⟩ (.leaving B.length) [fun _ => true]
    simp only [results, List.cons.injEq, and_true] at hsame
    -- a new codec sees a zero behind the stream, the other one `D9`
    have hnew := hexp.readFrame (c := (Past.mk [] []).codec fun _ => 0) rfl
    have hold := hexp.readFrame (c := (Past.leaving B.length).codec fun _ => 0) rfl
    rw [hsame, hold, Past.leaving_cell _ hexp.1] at hnew
    have hcell : ((Past.mk [] []).codec fun _ => 0).readBuf B.length = 0 := by
      simp [Past.codec, Reading.init, MjpegCodec.resetInputStatus, MjpegCodec.fresh, hexp.1]
    rw [hcell] at hnew
    exact absurd (hnew.mp rfl) (by decide)
  · intro hexp behind h₁ h₂ allocs
    refine Alike.results_eq hexp (.unread rfl rfl fun j hj => ?_) allocs
    rw [h₁.behind behind hj, h₂.behind behind hj]

/-- The stream `FF D8 0 FF` has a frame after a stream that has left `D9` behind it, and none on
    a new codec. -/
theorem not_results_independent :
    results ((Past.mk [] []).codec fun _ => 0) [0xFF, 0xD8, 0, 0xFF] [fun _ => true] =
        [none] ∧
      results ((Past.leaving 4).codec fun _ => 0) [0xFF, 0xD8, 0, 0xFF] [fun _ => true] =
        [some [0xFF, 0xD8, 0, 0xFF, 0xD9]] := by
  decide

end Ivy.Spec
