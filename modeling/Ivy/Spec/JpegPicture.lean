import Ivy.Spec.JpegSamples
import Ivy.Spec.JpegScan
import Ivy.Spec.JpegTiles

/-!
# The picture is decoded as it was coded

The pixels of a group of MCUs are collected in `usPixels`, and copied into a draw block. Each MCU
has its own columns of the group, so that what the MCUs have put stays until the group is complete.
With the scan and the tiling this gives the picture: every draw block has the colours of the coded
blocks.
-/

namespace Ivy.Spec

open Ivy.Native

/-! ## The cells of a group -/

/-- A cell of the tile has one row and one column. -/
theorem cell_inj {r r' c c' iPitch : Nat} (hc : c < iPitch) (hc' : c' < iPitch)
    (h : r * iPitch + c = r' * iPitch + c') : r = r' ∧ c = c' := by
  have hpos : 0 < iPitch := by omega
  have hdiv := congrArg (· / iPitch) h
  have hmod := congrArg (· % iPitch) h
  simp only [Nat.mul_comm _ iPitch, Nat.mul_add_div hpos, Nat.mul_add_mod, Nat.div_eq_of_lt hc,
    Nat.div_eq_of_lt hc', Nat.mod_eq_of_lt hc, Nat.mod_eq_of_lt hc'] at hdiv hmod
  exact ⟨hdiv, hmod⟩

section

variable {gray : Bool} {w h : Nat} {ucPixelType : PixelType} {sMCUs : Nat → Int16} {x iPitch : Nat}
  {visible : Nat → Prop} {ws : List (Nat × UInt16)}

/-- An MCU whose columns lie in the group shows its visible pixels. -/
theorem PutsMcu.shown (hp : PutsMcu gray w h ucPixelType sMCUs x iPitch visible ws)
    (hfit : x + w ≤ iPitch) (m : Nat → UInt16) {r c : Nat} (hr : r < h) (hc : c < w)
    (hvis : visible c) :
    Mem.writeAll m ws (x + r * iPitch + c) = ordered ucPixelType (mcuColor gray w h sMCUs r c) := by
  refine Mem.writeAll_of_mem m (hp.complete r c hr hc hvis) fun a ha haddr => ?_
  -- every write to this cell is one of the same pixel
  obtain ⟨r', c', -, hc', rfl⟩ := hp.sound a ha
  have hcell : r' * iPitch + c' = r * iPitch + c := by
    simp only at haddr
    omega
  obtain ⟨rfl, rfl⟩ := cell_inj (by omega) (by omega) hcell
  rfl

/-- The other columns are not touched. -/
theorem PutsMcu.kept (hp : PutsMcu gray w h ucPixelType sMCUs x iPitch visible ws)
    (hfit : x + w ≤ iPitch) (m : Nat → UInt16) {r c : Nat} (hc : c < x) :
    Mem.writeAll m ws (r * iPitch + c) = m (r * iPitch + c) := by
  refine Mem.writeAll_of_not_mem m fun a ha haddr => ?_
  obtain ⟨r', c', -, hc', rfl⟩ := hp.sound a ha
  have hcell : r' * iPitch + (x + c') = r * iPitch + c := by
    simp only at haddr
    omega
  have := (cell_inj (by omega) (by omega) hcell).2
  omega

end

/-- The columns that `JPEGPutMCU22` has to put when it is at column `x` of a group. -/
def Visible (p : JpegImage) (x c : Nat) : Prop :=
  p.ucSubSample = 0x22 → p.iWidth ≤ x + 15 → c < p.iWidth % 16

/-- Every kind of subsampling. -/
theorem putsMcu {p : JpegImage} {g : McuGrid} (hscale : p.scale = .full)
    (hgrid : p.mcuGrid = some g) (hsub : p.ucSubSample ∈ [0x00, 0x11, 0x12, 0x21, 0x22])
    (sMCUs : Nat → Int16) (x iPitch : Nat) :
    PutsMcu (p.ucSubSample = 0) g.mcuCX g.mcuCY p.ucPixelType sMCUs x iPitch (Visible p x)
      (p.putMCU sMCUs x iPitch) := by
  -- the other kinds put all of their columns
  have hall : ∀ {gray : Bool} {w h : Nat} {ws : List (Nat × UInt16)},
      PutsMcu gray w h p.ucPixelType sMCUs x iPitch (fun _ => True) ws →
        PutsMcu gray w h p.ucPixelType sMCUs x iPitch (Visible p x) ws :=
    fun hp => ⟨hp.sound, fun r c hr hc _ => hp.complete r c hr hc trivial⟩
  simp only [List.mem_cons, List.not_mem_nil, or_false] at hsub
  rcases hsub with h | h | h | h | h <;>
    simp only [JpegImage.mcuGrid, h, hscale, JpegScale.shift, Option.some.injEq] at hgrid <;>
    subst hgrid <;> rw [JpegImage.putMCU, h]
  · exact hall (putsMcu_gray _ _ _ _)
  · exact hall (putsMcu_11 _ _ _ _)
  · exact hall (putsMcu_12 _ _ _ _)
  · exact hall (putsMcu_21 _ _ _ _)
  · have hp := putsMcu_22 p.ucPixelType sMCUs x iPitch p.iWidth
    exact ⟨hp.sound, fun r c hr hc hvis => hp.complete r c hr hc (hvis h)⟩

/-! ## A group of MCUs -/

section

variable {p : JpegImage} {g : McuGrid}

/-- `usPixels` shows the MCUs of the columns `first` to `x`, of which `out` are the blocks, as far
    as they lie in the picture. -/
def GroupShows (p : JpegImage) (g : McuGrid) (out : Nat → Nat → Int16) (first x iPitch : Nat)
    (usPixels : Nat → UInt16) : Prop :=
  ∀ col r c, first ≤ col → col < x → r < g.mcuCY → c < g.mcuCX → col * g.mcuCX + c < p.iWidth →
    usPixels ((col - first) * g.mcuCX + r * iPitch + c) =
      ordered p.ucPixelType (mcuColor (p.ucSubSample = 0) g.mcuCX g.mcuCY (out col) r c)

/-- The MCU of column `x` is put next to the others. -/
theorem GroupShows.put {out : Nat → Nat → Int16} {first x iPitch xoff : Nat}
    {usPixels : Nat → UInt16} {ws : List (Nat × UInt16)}
    (hshow : GroupShows p g out first x iPitch usPixels) (hx : first ≤ x)
    (hxoff : xoff = (x - first) * g.mcuCX)
    (hputs : PutsMcu (p.ucSubSample = 0) g.mcuCX g.mcuCY p.ucPixelType (out x) xoff iPitch
      (Visible p xoff) ws)
    (hfit : xoff + g.mcuCX ≤ iPitch)
    (hvis : ∀ c < g.mcuCX, x * g.mcuCX + c < p.iWidth → Visible p xoff c) :
    GroupShows p g out first (x + 1) iPitch (Mem.writeAll usPixels ws) := by
  intro col r c hfirst hcol hr hc hin
  rcases Nat.lt_or_eq_of_le (Nat.le_of_lt_succ hcol) with hlt | rfl
  · -- an earlier MCU
    have hleft : (col - first) * g.mcuCX + g.mcuCX ≤ xoff := by
      rw [hxoff, ← Nat.succ_mul]
      exact Nat.mul_le_mul_right _ (by omega)
    rw [← hshow col r c hfirst hlt hr hc hin, Nat.add_right_comm, Nat.add_comm _ (r * iPitch)]
    exact hputs.kept hfit usPixels (by omega)
  · rw [← hxoff]
    exact hputs.shown hfit usPixels hr hc (hvis c hc hin)

/-- Columns are left out only if the group begins at the left edge, and then `x` is the column of
    the picture. -/
theorem visible_of_lt {x first c : Nat} (hsize : p.ucSubSample = 0x22 → g.mcuCX = 16)
    (hfirst : first ≤ x) (hin : x * g.mcuCX + c < p.iWidth) :
    Visible p ((x - first) * g.mcuCX) c := by
  intro h22 hedge
  -- behind the left edge `x + 15` is below the width, and nothing is left out
  rw [hsize h22] at hin hedge
  omega

/-- The colour of the pixel in column `px` and row `py` of the picture. -/
def pictureColor (p : JpegImage) (g : McuGrid) (out : Nat → Nat → Int16) (px py : Nat) : UInt16 :=
  ordered p.ucPixelType (mcuColor (p.ucSubSample = 0) g.mcuCX g.mcuCY
    (out (py / g.mcuCY * g.cx + px / g.mcuCX)) (py % g.mcuCY) (px % g.mcuCX))

/-- A draw block has the colours of its part of the picture. -/
def TileShows (p : JpegImage) (g : McuGrid) (out : Nat → Nat → Int16) (tile : JpegTile) : Prop :=
  ∀ i j : Nat, (i : Int) < tile.draw.iWidth → (j : Int) < tile.draw.iHeight →
    tile.draw.x + i < p.iWidth →
    tile.pPixels[j * tile.draw.iWidth.toNat + i]? =
      some (pictureColor p g out (tile.draw.x + i).toNat (tile.draw.y + j).toNat)

/-- A complete group as a draw block. -/
theorem GroupShows.tile {out : Nat → Nat → Int16} {first size y : Nat} {jdHeight : Int}
    {usPixels : Nat → UInt16} (hg : FullSize g)
    (hshow : GroupShows p g (fun col => out (y * g.cx + col)) first (first + size)
      (size * g.mcuCX) usPixels) (hheight : jdHeight ≤ g.mcuCY) :
    TileShows p g out ⟨⟨first * g.mcuCX, y * g.mcuCY, size * g.mcuCX, jdHeight⟩,
      Mem.load usPixels 0 ((size * g.mcuCX : Int) * jdHeight).toNat⟩ := by
  intro i j hi hj hin
  simp only at hi hj hin ⊢
  have hCX : 0 < g.mcuCX := by rcases hg.mcuCX with h | h <;> omega
  have hi' : i < size * g.mcuCX := by exact_mod_cast hi
  have hj' : j < g.mcuCY := by omega
  have hpitch : (size * g.mcuCX : Int).toNat = size * g.mcuCX := by
    rw [← Int.natCast_mul, Int.toNat_natCast]
  have hpx : ((first * g.mcuCX : Int) + i).toNat = g.mcuCX * first + i := by
    rw [← Int.natCast_mul, ← Int.natCast_add, Int.toNat_natCast, Nat.mul_comm]
  have hpy : ((y * g.mcuCY : Int) + j).toNat = g.mcuCY * y + j := by
    rw [← Int.natCast_mul, ← Int.natCast_add, Int.toNat_natCast, Nat.mul_comm]
  -- the pixel lies in the block
  have hlen : j * (size * g.mcuCX) + i < ((size * g.mcuCX : Int) * jdHeight).toNat := by
    obtain ⟨n, rfl⟩ : ∃ n : Nat, jdHeight = n := ⟨jdHeight.toNat, by omega⟩
    rw [← Int.natCast_mul, ← Int.natCast_mul, Int.toNat_natCast]
    have hrow : (j + 1) * (size * g.mcuCX) ≤ n * (size * g.mcuCX) :=
      Nat.mul_le_mul_right _ (by omega)
    rw [Nat.mul_comm _ n]
    rw [Nat.succ_mul] at hrow
    omega
  -- its MCU, and its place in it
  have hdiv := Nat.div_add_mod i g.mcuCX
  have hcol : i / g.mcuCX < size := Nat.div_lt_of_lt_mul (by rwa [Nat.mul_comm])
  have hcolor := hshow (first + i / g.mcuCX) j (i % g.mcuCX) (Nat.le_add_right _ _)
    (Nat.add_lt_add_left hcol _) hj'
    (Nat.mod_lt _ hCX) (by
      rw [Nat.add_mul, Nat.mul_comm (i / g.mcuCX), Nat.add_assoc, hdiv]
      exact_mod_cast hin)
  rw [hpitch, Mem.getElem?_load _ hlen, pictureColor, hpx, hpy, Nat.mul_add_div hCX,
    Nat.mul_add_mod, Nat.mul_add_div (by omega), Nat.div_eq_of_lt hj', Nat.mul_add_mod,
    Nat.mod_eq_of_lt hj', Nat.add_zero, ← hcolor]
  congr 2
  rw [Nat.add_sub_cancel_left, Nat.mul_comm (i / g.mcuCX)]
  omega

end

/-! ## From MCU to MCU -/

/-- The first MCU of a scan, and the others. -/
theorem scan_succ {q : ScanInfo} {n : Nat} {s : ScanState} {o : Nat → Int16}
    {rest : List (Nat → Int16)} (h : q.scan (n + 1) s = (o :: rest, false)) :
    ∃ s', q.decodeBlocks (mcuBlocks q.ucSubSample q.ucNumComponents) s = (s', false) ∧
      s'.mcu.sMCUs = o ∧ q.scan n (q.restart s').feed = (rest, false) := by
  rw [ScanInfo.scan] at h
  rcases hd : q.decodeBlocks (mcuBlocks q.ucSubSample q.ucNumComponents) s with ⟨s', err⟩
  rcases hr : q.scan n (q.restart s').feed with ⟨rest', err'⟩
  rw [hd] at h
  dsimp only at h
  split at h
  · simp at h
  · rename_i herr
    rw [hr] at h
    simp only [Prod.mk.injEq, List.cons.injEq] at h
    obtain ⟨⟨rfl, rfl⟩, rfl⟩ := h
    exact ⟨s', by simp_all, rfl, hr⟩

section

variable {p : JpegImage} {q : ScanInfo} {g : McuGrid} {outs : List (Nat → Int16)}

/-- The blocks of MCU number `k`. -/
def outAt (outs : List (Nat → Int16)) (k : Nat) : Nat → Int16 := outs.getD k fun _ => 0

/-- The scan has come to MCU number `k`, and the others can be decoded. -/
def ScanBehind (q : ScanInfo) (outs : List (Nat → Int16)) (k : Nat) (s : ScanState) : Prop :=
  q.scan (outs.length - k) s = (outs.drop k, false)

/-- One MCU that can be decoded. -/
theorem pictureStep_eq {s : PictureState} {k : Nat} (hk : k < outs.length)
    (hs : ScanBehind q outs k s.scan) (y x : Nat) :
    ∃ scan', ScanBehind q outs (k + 1) scan' ∧
      p.pictureStep q g (fun _ _ => true) y x s =
        (⟨(p.mcuStep g noFailures y x s.draw).1, Mem.writeAll s.usPixels
            (p.putMCU (outAt outs k) s.draw.xoff.toNat s.draw.iPitch.toNat), scan'⟩,
          (p.mcuStep g noFailures y x s.draw).2.map fun d =>
            ⟨d, Mem.load (Mem.writeAll s.usPixels
              (p.putMCU (outAt outs k) s.draw.xoff.toNat s.draw.iPitch.toNat)) 0
                (d.iWidth * d.iHeight).toNat⟩) := by
  have hout : outAt outs k = outs[k] := by rw [outAt, List.getD, List.getElem?_eq_getElem hk]; rfl
  -- the scan of the rest, split at its first MCU
  rw [ScanBehind, List.drop_eq_getElem_cons hk,
    show outs.length - k = outs.length - (k + 1) + 1 by omega] at hs
  obtain ⟨s', hd, ho, hrest⟩ := scan_succ hs
  refine ⟨_, hrest, ?_⟩
  rw [JpegImage.pictureStep, hd]
  simp only [ho, hout]
  rfl

/-- Before column `x` of row `y`. -/
structure OnRow (p : JpegImage) (q : ScanInfo) (g : McuGrid) (outs : List (Nat → Int16))
    (s : PictureState) (y x first size : Nat) : Prop where
  inRow : InRow p g s.draw x first size
  jdY : s.draw.jdY = y * g.mcuCY
  height : s.draw.jdHeight ≤ g.mcuCY
  shows : GroupShows p g (fun col => outAt outs (y * g.cx + col)) first x (size * g.mcuCX)
    s.usPixels
  scan : ScanBehind q outs (y * g.cx + x) s.scan

/-- What is fixed while a picture is decoded. -/
structure PictureDecode (p : JpegImage) (g : McuGrid) : Prop where
  full : FullDecode p g
  grid : p.mcuGrid = some g
  subSample : p.ucSubSample ∈ [0x00, 0x11, 0x12, 0x21, 0x22]

/-- The width of the largest MCUs. -/
theorem PictureDecode.mcuCX_eq (h : PictureDecode p g) (h22 : p.ucSubSample = 0x22) :
    g.mcuCX = 16 := by
  have hgrid := h.grid
  simp only [JpegImage.mcuGrid, h22, h.full.scale, JpegScale.shift, Option.some.injEq] at hgrid
  rw [← hgrid]
  rfl

/-- The last rows of MCUs may be cut off, and none is made higher. -/
theorem trimmed_le {s : DrawState} (h : FullDecode p g) (hheight : s.jdHeight ≤ g.mcuCY) :
    p.trimmed g s ≤ g.mcuCY := by
  rw [JpegImage.trimmed, h.iYOffset, h.scale, JpegScale.shift, Nat.shiftRight_zero]
  split <;> omega

/-- The MCU of column `x` is in `usPixels` when it has been put. -/
theorem OnRow.shows_next (h : PictureDecode p g) {s : PictureState} {y x first size : Nat}
    (hs : OnRow p q g outs s y x first size) (hx : x < first + size) :
    GroupShows p g (fun col => outAt outs (y * g.cx + col)) first (x + 1) (size * g.mcuCX)
      (Mem.writeAll s.usPixels
        (p.putMCU (outAt outs (y * g.cx + x)) s.draw.xoff.toNat s.draw.iPitch.toNat)) := by
  have hfirst := hs.inRow.first_le
  -- the MCU lies behind the others of its group, within the pitch
  have hxoff : s.draw.xoff.toNat = (x - first) * g.mcuCX := by
    rw [hs.inRow.xoff, ← Int.natCast_sub hfirst, ← Int.natCast_mul, Int.toNat_natCast]
  have hpitch : s.draw.iPitch.toNat = size * g.mcuCX := by
    rw [hs.inRow.iPitch, ← Int.natCast_mul, Int.toNat_natCast]
  have hfit : (x - first) * g.mcuCX + g.mcuCX ≤ size * g.mcuCX := by
    rw [← Nat.succ_mul]
    exact Nat.mul_le_mul_right _ (by omega)
  rw [hxoff, hpitch]
  exact hs.shows.put hfirst rfl (putsMcu h.full.scale h.grid h.subSample _ _ _) hfit
    fun c _ hin => visible_of_lt h.mcuCX_eq hfirst hin

/-- What the rest of a row leaves and puts into the queue. -/
structure RowShown (p : JpegImage) (q : ScanInfo) (g : McuGrid) (outs : List (Nat → Int16))
    (y n x : Nat) (s : DrawState) (result : PictureState × List JpegTile) : Prop where
  draws : p.rowLoop g noFailures y n x s = (result.1.draw, result.2.map JpegTile.draw)
  shows : ∀ tile ∈ result.2, TileShows p g (outAt outs) tile
  scan : ScanBehind q outs (y * g.cx + g.cx) result.1.scan
  height : result.1.draw.jdHeight ≤ g.mcuCY

/-- A row of MCUs is shown by its tiles. -/
theorem OnRow.pictureRow (outs : List (Nat → Int16)) (h : PictureDecode p g)
    (hlen : outs.length = g.cy * g.cx) {y : Nat} (hy : y < g.cy) (n : Nat)
    {s : PictureState} {x first size : Nat} (hs : OnRow p q g outs s y x first size)
    (hn : x + n = g.cx) :
    RowShown p q g outs y n x s.draw (p.pictureRow q g (fun _ _ => true) y n x s) := by
  induction n generalizing s x first size with
  | zero =>
    -- the row is over, and the scan is at the first MCU of the next one
    refine ⟨rfl, nofun, ?_, hs.height⟩
    have hscan := hs.scan
    rwa [show x = g.cx by omega] at hscan
  | succ n ih =>
    have hx : x < g.cx := by omega
    -- this MCU is one of the scan
    have hk : y * g.cx + x < outs.length := by
      have hrows : (y + 1) * g.cx ≤ g.cy * g.cx := Nat.mul_le_mul_right _ hy
      rw [Nat.succ_mul] at hrows
      omega
    have hgroup : x < first + size := by
      have hin := hs.inRow.inGroup
      have hsize := hs.inRow.size_eq
      have hcount := h.full.count
      omega
    obtain ⟨scan', hscan, hstep⟩ := pictureStep_eq (p := p) (g := g) hk hs.scan y x
    have hshows := hs.shows_next h hgroup
    rw [JpegImage.pictureRow, if_neg (by simp [hs.inRow.noErr]), hstep]
    generalize Mem.writeAll s.usPixels _ = usPixels at hshows
    by_cases hlast : x + 1 = first + size
    · -- the group is complete
      rw [hs.inRow.mcuStep_last h.full.size h.full.count hlast]
      obtain ⟨size', hnext⟩ := hs.inRow.last h.full.size h.full.count hx hlast
      have hrest := ih (s := ⟨groupDone p g x s.draw, usPixels, scan'⟩) ⟨hnext, hs.jdY,
        trimmed_le h.full hs.height, fun col r c hfirst hcol => by omega, hscan⟩ (by omega)
      have hdraws : p.rowLoop g noFailures y n (x + 1) (groupDone p g x s.draw) = _ := hrest.draws
      refine ⟨?_, ?_, hrest.scan, hrest.height⟩
      · rw [JpegImage.rowLoop, if_neg (by simp [hs.inRow.noErr]),
          hs.inRow.mcuStep_last h.full.size h.full.count hlast]
        dsimp only
        rw [hdraws]
        rfl
      · intro tile htile
        rcases List.mem_append.mp htile with htile | htile
        · rw [List.map_singleton, List.mem_singleton] at htile
          rw [htile, hs.inRow.jdX, hs.jdY, hs.inRow.iPitch]
          rw [hlast] at hshows
          exact hshows.tile h.full.size (trimmed_le h.full hs.height)
        · exact hrest.shows tile htile
    · -- the group goes on, and nothing is put into the queue
      rw [hs.inRow.mcuStep_inside h.full.size h.full.count hlast]
      have hrest := ih (s := ⟨_, usPixels, scan'⟩)
        ⟨hs.inRow.inside h.full.count hx hlast, hs.jdY, hs.height, hshows, hscan⟩ (by omega)
      have hdraws : p.rowLoop g noFailures y n (x + 1)
        { s.draw with iErr := false, xoff := s.draw.xoff + g.mcuCX } = _ := hrest.draws
      refine ⟨?_, hrest.shows, hrest.scan, hrest.height⟩
      rw [JpegImage.rowLoop, if_neg (by simp [hs.inRow.noErr]),
        hs.inRow.mcuStep_inside h.full.size h.full.count hlast]
      dsimp only
      rw [hdraws]
      rfl

/-- All rows. -/
theorem pictureRows_shown (h : PictureDecode p g) (hlen : outs.length = g.cy * g.cx) (n : Nat)
    {y : Nat} {s : PictureState} (hn : y + n = g.cy) (herr : s.draw.iErr = false)
    (hy : s.draw.jdY = y * g.mcuCY) (hheight : s.draw.jdHeight ≤ g.mcuCY)
    (hscan : ScanBehind q outs (y * g.cx) s.scan) :
    (p.pictureRows q g (fun _ _ => true) n y s).map JpegTile.draw =
        p.rowsLoop g noFailures n y s.draw ∧
      ∀ tile ∈ p.pictureRows q g (fun _ _ => true) n y s, TileShows p g (outAt outs) tile := by
  induction n generalizing y s with
  | zero => exact ⟨rfl, nofun⟩
  | succ n ih =>
    -- the row begins with a new group
    have hin := h.full.inRow herr
    have hrow := OnRow.pictureRow (q := q) outs h hlen (y := y) (by omega) g.cx
      (s := { s with draw := { s.draw with
        jdX := p.iXOffset, xoff := 0, iPitch := p.mcuCount g * g.mcuCX } })
      ⟨hin, hy, hheight, fun col r c _ hcol => by omega, hscan⟩ (Nat.zero_add _)
    have hdone := hin.rowLoop h.full.size h.full.count y g.cx (Nat.zero_add _)
    rw [JpegImage.pictureRows, if_neg (by simp [herr]), JpegImage.rowsLoop,
      if_neg (by simp [herr])]
    dsimp only at hrow ⊢
    rw [hrow.draws] at hdone ⊢
    generalize p.pictureRow q g (fun _ _ => true) y g.cx 0 _ = row at hrow hdone ⊢
    obtain ⟨s', tiles⟩ := row
    have hnext : s'.draw.jdY + g.mcuCY = ((y + 1 : Nat) : Int) * g.mcuCY := by
      rw [show s'.draw.jdY = y * g.mcuCY from hdone.jdY.trans hy, Int.natCast_add, Int.add_mul,
        Int.natCast_one, Int.one_mul]
    have hrest := ih (y := y + 1) (s := { s' with draw := { s'.draw with
      jdY := s'.draw.jdY + g.mcuCY } }) (by omega) hdone.noErr hnext hrow.height
      (by rw [Nat.succ_mul]; exact hrow.scan)
    refine ⟨?_, fun tile htile => ?_⟩
    · rw [List.map_append, hrest.1]
    · rcases List.mem_append.mp htile with htile | htile
      · exact hrow.shows tile htile
      · exact hrest.2 tile htile

end

/-! ## The coded picture -/

/-- The colour of the pixel in row `r` and column `c` of an MCU of `w` times `h` pixels, as its
    blocks are coded: it is made of accurate samples. Those of the chroma blocks are stretched over
    the MCU. -/
def CodedPixel (q : ScanInfo) (quant : Nat → Int16) (gray : Bool) (w h : Nat)
    (mcu : List (List Int)) (r c : Nat) (x : UInt16) : Prop :=
  let table := fun comp => (q.jpci comp).quantTblNo.toNat
  let n := w / 8 * (h / 8)
  ∃ y cb cr : UInt8, x = color y cb cr ∧
    Accurate quant (table 0) (mcu.getD (r / 8 * (w / 8) + c / 8) []) (r % 8) (c % 8) y ∧
    if gray then cb = 128 ∧ cr = 128
    else Accurate quant (table 1) (mcu.getD n []) (r / (h / 8)) (c / (w / 8)) cb ∧
      Accurate quant (table 2) (mcu.getD (n + 1) []) (r / (h / 8)) (c / (w / 8)) cr

/-- A byte of a block is a sample. -/
theorem McuPixels.sample_eq {q : ScanInfo} {blocks : List (Nat × Nat)} {mcu : List (List Int)}
    {sMCUs : Nat → Int16} (h : McuPixels q blocks mcu sMCUs) {b iMCU comp i : Nat}
    (hb : blocks[b]? = some (iMCU, comp)) (hi : i < 64) :
    mcuByte sMCUs iMCU i = sample q comp (mcu.getD b []) i := by
  obtain ⟨hlen, hget⟩ := List.forall₂_iff_get.mp h
  obtain ⟨hlt, hbe⟩ := List.getElem?_eq_some_iff.mp hb
  -- the words of the block are those of its coefficients
  have hload := hget b hlt (by omega)
  simp only [List.get_eq_getElem, hbe] at hload
  have hcell : (blockPixels q comp (mcu.getD b [])).getD (i / 2) 0 = sMCUs (iMCU + i / 2) := by
    rw [List.getD, List.getD, List.getElem?_eq_getElem (by omega : b < mcu.length),
      Option.getD_some, ← hload, Mem.getElem?_load _ (by omega)]
    rfl
  rw [sample, mcuByte, mcuByte, Nat.zero_add, hcell]

/-- The blocks of an MCU are numbered in the order in which they lie in it. -/
structure BlockOrder (gray : Bool) (w h : Nat) (blocks : List (Nat × Nat)) : Prop where
  lum : ∀ b < w / 8 * (h / 8), blocks[b]? = some (64 * b, 0)
  cb : gray = false → blocks[w / 8 * (h / 8)]? = some (64 * (w / 8 * (h / 8)), 1)
  cr : gray = false → blocks[w / 8 * (h / 8) + 1]? = some (64 * (w / 8 * (h / 8) + 1), 2)

section

variable {p : JpegImage} {q : ScanInfo} {g : McuGrid}

/-- The order of the blocks in an MCU. -/
theorem blockOrder (hgrid : PictureDecode p g) (hsame : q.ucSubSample = p.ucSubSample)
    (hcolor : p.ucSubSample ≠ 0 → q.ucNumComponents = 3) :
    BlockOrder (p.ucSubSample = 0) g.mcuCX g.mcuCY
      (mcuBlocks q.ucSubSample q.ucNumComponents) := by
  have hsub := hgrid.subSample
  have hg := hgrid.grid
  simp only [List.mem_cons, List.not_mem_nil, or_false] at hsub
  rw [hsame]
  rcases hsub with h | h | h | h | h <;>
    simp only [JpegImage.mcuGrid, h, hgrid.full.scale, JpegScale.shift, Option.some.injEq] at hg <;>
    subst hg <;> rw [h] at hcolor ⊢
  · -- gray: one block, and no chroma to be found
    refine ⟨fun b hb => ?_, fun hgray => by simp at hgray, fun hgray => by simp at hgray⟩
    obtain rfl : b = 0 := by simpa using hb
    simp [mcuBlocks]
  all_goals
    rw [hcolor (by decide)]
    simp only [Nat.shiftRight_zero]
    exact ⟨by decide, fun _ => by decide, fun _ => by decide⟩

/-- The bytes of a block are its samples, which are accurate. -/
theorem McuPixels.accurate {blocks : List (Nat × Nat)} {mcu : List (List Int)}
    {sMCUs : Nat → Int16} {quant : Nat → Int16} (hpix : McuPixels q blocks mcu sMCUs)
    (hscale : q.scale = .full) (hlen : ∀ coefs ∈ mcu, coefs.length = 64)
    (hq : ∀ b ∈ blocks, Quantized q quant b.2) {b iMCU comp r c : Nat}
    (hb : blocks[b]? = some (iMCU, comp)) (hr : r < 8) (hc : c < 8) :
    Accurate quant (q.jpci comp).quantTblNo.toNat (mcu.getD b []) r c
      (mcuByte sMCUs iMCU (8 * r + c)) := by
  have hlt : b < mcu.length := by
    rw [← List.Forall₂.length_eq hpix]
    exact (List.getElem?_eq_some_iff.mp hb).1
  have hmem : mcu.getD b [] ∈ mcu := by
    rw [List.getD, List.getElem?_eq_getElem hlt]
    exact List.getElem_mem hlt
  rw [hpix.sample_eq hb (by omega)]
  exact sample_accurate hscale (hlen _ hmem) (hq _ (List.mem_of_getElem? hb)) hr hc

/-- The pixels of an MCU have the colours of its coefficients. -/
theorem mcuColor_coded {gray : Bool} {w h : Nat} {mcu : List (List Int)} {blocks : List (Nat × Nat)}
    {sMCUs : Nat → Int16} {quant : Nat → Int16} (ho : BlockOrder gray w h blocks)
    (hpix : McuPixels q blocks mcu sMCUs) (hscale : q.scale = .full)
    (hlen : ∀ coefs ∈ mcu, coefs.length = 64) (hq : ∀ b ∈ blocks, Quantized q quant b.2)
    (hw : w = 8 ∨ w = 16) (hh : h = 8 ∨ h = 16) {r c : Nat} (hr : r < h) (hc : c < w) :
    CodedPixel q quant gray w h mcu r c (mcuColor gray w h sMCUs r c) := by
  -- the luminance block of the pixel, and its place in the chroma blocks
  have hblock : r / 8 * (w / 8) + c / 8 < w / 8 * (h / 8) ∧ r / (h / 8) < 8 ∧ c / (w / 8) < 8 := by
    rcases hw with rfl | rfl <;> rcases hh with rfl | rfl <;> omega
  have hy := hpix.accurate hscale hlen hq (ho.lum _ hblock.1) (r := r % 8) (c := c % 8) (by omega)
    (by omega)
  rw [mcuColor, CodedPixel]
  dsimp only
  cases gray with
  | true => exact ⟨_, _, _, rfl, hy, rfl, rfl⟩
  | false =>
    exact ⟨_, _, _, rfl, hy, hpix.accurate hscale hlen hq (ho.cb rfl) hblock.2.1 hblock.2.2,
      hpix.accurate hscale hlen hq (ho.cr rfl) hblock.2.1 hblock.2.2⟩

/-- A picture at full size in the upper left corner, with RGB565 pixels and groups of five MCUs, and
    the tables for it. -/
structure PictureSetup (p : JpegImage) (q : ScanInfo) : Prop where
  width : 1 ≤ p.iWidth
  scale : p.scale = .full ∧ q.scale = .full
  offset : p.iXOffset = 0 ∧ p.iYOffset = 0
  maxMcus : p.iMaxMCUs = maxMcu
  pixel : p.ucPixelType = .rgb565LittleEndian ∨ p.ucPixelType = .rgb565BigEndian
  subSample : p.ucSubSample ∈ [0x00, 0x11, 0x12, 0x21, 0x22]
  same : q.ucSubSample = p.ucSubSample
  color : p.ucSubSample ≠ 0 → q.ucNumComponents = 3

/-- The assumptions are those of the full size decoding. -/
theorem PictureSetup.decode (hs : PictureSetup p q) (hgrid : p.mcuGrid = some g) :
    PictureDecode p g := by
  have hsub : [0x00, 0x11, 0x12, 0x21, 0x22] ⊆ [(0x00 : UInt8), 0x01, 0x11, 0x12, 0x21, 0x22] := by
    simp
  obtain ⟨g', hgrid', hg, hcx, hcy⟩ := mcuGrid_full hs.scale.1 (hsub hs.subSample)
  obtain rfl : g' = g := Option.some.inj (hgrid'.symm.trans hgrid)
  exact ⟨fullDecode hs.scale.1 hs.offset.1 hs.offset.2 hg hcx hcy hs.width
    (mcuCount_eq hg hs.maxMcus hs.pixel), hgrid, hs.subSample⟩

/-- The MCU of a pixel of a draw block. -/
theorem PictureDecode.inside (hd : PictureDecode p g) {d : JpegDraw} {s : DrawState}
    (herr : s.iErr = false) (hy : s.jdY = 0) (hheight : s.jdHeight = g.mcuCY)
    (hmem : d ∈ p.rowsLoop g noFailures g.cy 0 s) (px py : Nat)
    (hcov : (drawRect d).Covers px py) :
    py / g.mcuCY * g.cx + px / g.mcuCX < g.cy * g.cx := by
  have hdone := hd.full.rowsLoop g.cy 0 (Nat.zero_add _) herr (by simp [hy]) fun _ => hheight
  obtain ⟨⟨-, hpx⟩, -, hpy⟩ :=
    (hdone.grid.covers_iff px py).mp ⟨_, List.mem_map_of_mem hmem, hcov⟩
  -- the pixel's MCU is in one of the rows and columns
  have hcol : px / g.mcuCX < g.cx := by
    refine Nat.div_lt_of_lt_mul ?_
    rw [Nat.mul_comm]
    exact_mod_cast hpx
  have hrow : py / g.mcuCY < g.cy := by
    refine (hd.full.rows _).mpr (Nat.lt_of_le_of_lt (Nat.div_mul_le_self _ _) ?_)
    exact_mod_cast hpy
  have hrows : (py / g.mcuCY + 1) * g.cx ≤ g.cy * g.cx := Nat.mul_le_mul_right _ hrow
  rw [Nat.succ_mul] at hrows
  omega

end

/-- A whole frame: if the file contains the coded MCUs of the picture, row by row, then `DecodeJPEG`
    puts the draw blocks of the picture into the queue, and each of their pixels that lies in the
    picture has a colour that is made of accurate samples of the coded blocks. -/
theorem picture_decodes {p : JpegImage} {q : ScanInfo} {g : McuGrid} {h : HuffTables} {M R : Nat}
    {mcus : List (List (List Int))} {intervals : List (List UInt8 × UInt8)} {rest : List UInt8}
    {v : Vlc} {iBytesRead iOffset : Nat} {quant : Nat → Int16} (hs : PictureSetup p q)
    (hgrid : p.mcuGrid = some g) (hcount : mcus.length = g.cy * g.cx) (hp : Decodes q h)
    (hq : ∀ b ∈ mcuBlocks q.ucSubSample q.ucNumComponents, Quantized q quant b.2)
    (hf : CodedFile q h M R mcus intervals rest v iBytesRead iOffset) (usPixels : Nat → UInt16)
    (sMCUs : Nat → Int16) (ucMaxACCol ucMaxACRow : UInt8) :
    ∃ tiles, p.decodePicture q (fun _ _ => true) usPixels
        (q.start (v.startScan iBytesRead iOffset) sMCUs ucMaxACCol ucMaxACRow) = some tiles ∧
      p.decodeJPEG noFailures = some (tiles.map JpegTile.draw) ∧
      ∀ tile ∈ tiles, ∀ i j px py : Nat, (i : Int) < tile.draw.iWidth →
        (j : Int) < tile.draw.iHeight → tile.draw.x + i = px → tile.draw.y + j = py →
        px < p.iWidth →
        ∃ x, tile.pPixels[j * tile.draw.iWidth.toNat + i]? = some (ordered p.ucPixelType x) ∧
          CodedPixel q quant (p.ucSubSample = 0) g.mcuCX g.mcuCY
            (mcus.getD (py / g.mcuCY * g.cx + px / g.mcuCX) [])
            (py % g.mcuCY) (px % g.mcuCX) x := by
  -- all MCUs of the scan first; the picture is then made of what they have left
  obtain ⟨D, hcoded, hstart⟩ := hf.start sMCUs ucMaxACCol ucMaxACRow
  obtain ⟨outs, hscan, hpixels⟩ := scan_coded hp hf.limit hcoded hstart
  have hd := hs.decode hgrid
  have hlen : outs.length = g.cy * g.cx := hpixels.length_eq.symm.trans hcount
  obtain ⟨hdraws, hshows⟩ := pictureRows_shown (q := q) (y := 0) hd hlen g.cy
    (s := ⟨⟨0, p.iYOffset, g.mcuCY, 0, 0, false⟩, usPixels,
      q.start (v.startScan iBytesRead iOffset) sMCUs ucMaxACCol ucMaxACRow⟩)
    (Nat.zero_add _) rfl (by simp [hs.offset.2]) (Int.le_refl _)
    (by rw [ScanBehind, Nat.zero_mul, List.drop_zero, Nat.sub_zero, ← hpixels.length_eq, hscan])
  refine ⟨_, by rw [JpegImage.decodePicture, hgrid]; rfl, ?_, ?_⟩
  · rw [hdraws, JpegImage.decodeJPEG, hgrid]
    rfl
  · intro tile htile i j px py hi hj hpx hpy hin
    have hcolor := hshows tile htile i j hi hj (by omega)
    rw [hpx, hpy, Int.toNat_natCast, Int.toNat_natCast] at hcolor
    refine ⟨_, hcolor, ?_⟩
    -- the MCU of the pixel is one of the coded ones
    have hk := hd.inside rfl hs.offset.2 rfl (hdraws ▸ List.mem_map_of_mem htile) px py
      ⟨⟨by simp only [drawRect]; omega, by simp only [drawRect]; omega⟩,
        by simp only [drawRect]; omega, by simp only [drawRect]; omega⟩
    generalize py / g.mcuCY * g.cx + px / g.mcuCX = k at hk
    obtain ⟨-, hget⟩ := List.forall₂_iff_get.mp hpixels
    have hpix := hget k (by omega) (by omega)
    simp only [List.get_eq_getElem] at hpix
    have hCX := hd.full.size.mcuCX
    have hCY := hd.full.size.mcuCY
    rw [outAt, List.getD_eq_getElem outs _ (by omega), List.getD_eq_getElem mcus _ (by omega)]
    exact mcuColor_coded (blockOrder hd hs.same hs.color) hpix hs.scale.2
      (hcoded.length_eq _ (List.getElem_mem _)) hq hCX hCY (Nat.mod_lt _ (by omega))
      (Nat.mod_lt _ (by omega))

/-- A gray picture of three MCUs side by side. -/
def grayPicture : JpegImage where
  iWidth := 24
  iHeight := 8
  ucSubSample := 0
  ucPixelType := .rgb565LittleEndian
  iMaxMCUs := 5
  iXOffset := 0
  iYOffset := 0
  scale := .full

/-- A grayscale picture. -/
theorem pictureSetup_gray : PictureSetup grayPicture grayScan :=
  ⟨by decide, ⟨rfl, rfl⟩, ⟨rfl, rfl⟩, rfl, .inl rfl, by decide, rfl, fun h => absurd rfl h⟩

/-- All of its quantization values are 4. -/
theorem quantized_gray (comp : Nat) : Quantized grayScan (fun _ => 4) comp :=
  ⟨rfl, (by decide : 0 < 1), fun _ _ => (by decide : 4 < 2 ^ 12)⟩

/-- The samples of its first block should all be 178. -/
theorem exactSample_gray (r c : Nat) :
    exactSample (fun _ => 4) 0 (100 :: List.replicate 63 0) r c = 178 := by
  have hzero : ∀ u < 8, ∀ v < 8, u ≠ 0 ∨ v ≠ 0 →
      coefficient (100 :: List.replicate 63 0) u v = 0 := by decide
  have hfirst : Dct.basis r 0 * Dct.basis c 0 = 1 := by
    simp [Dct.basis, Dct.weight]
  have hsum : Dct.inverse (fun u v => coefficient (100 :: List.replicate 63 0) u v *
      quantizer (fun _ => 4) 0 u v) r c = 50 := by
    -- only the first coefficient is not zero
    rw [Dct.inverse_eq, Finset.sum_eq_single 0, Finset.sum_eq_single 0, hfirst]
    · rw [show coefficient (100 :: List.replicate 63 0) 0 0 = 100 from rfl,
        show quantizer (fun _ => 4) 0 0 0 = 4 from rfl]
      norm_num
    · intro v hv hne
      rw [hzero 0 (by decide) v (Finset.mem_range.mp hv) (.inr hne)]
      simp
    · simp
    · intro u hu hne
      refine Finset.sum_eq_zero fun v hv => ?_
      rw [hzero u (Finset.mem_range.mp hu) v (Finset.mem_range.mp hv) (.inl hne)]
      simp
    · simp
  rw [exactSample, hsum]
  norm_num

/-- It becomes one draw block, and the luminance of its first pixel is near 178. -/
theorem picture_decodes_gray : ∃ tiles,
    grayPicture.decodePicture grayScan (fun _ _ => true) (fun _ => 0)
        (grayScan.start (grayData.startScan 10 0) (fun _ => 0) 0 0) = some tiles ∧
      tiles.map JpegTile.draw = [⟨0, 0, 24, 8⟩] ∧
      ∀ tile ∈ tiles, ∃ y : UInt8, tile.pPixels[0]? = some (color y 128 128) ∧
        |(y.toNat : ℝ) - 178| ≤ 2.5 + 100 / 32 := by
  obtain ⟨tiles, htiles, hdraws, hcolor⟩ := picture_decodes pictureSetup_gray
    (g := ⟨3, 1, 8, 8⟩) rfl rfl decodes_grayScan (fun b _ => quantized_gray b.2) codedFile_gray
    (fun _ => 0) (fun _ => 0) 0 0
  have hdraw : tiles.map JpegTile.draw = [⟨0, 0, 24, 8⟩] :=
    (Option.some.inj (hdraws.symm.trans (by decide)))
  refine ⟨tiles, htiles, hdraw, fun tile htile => ?_⟩
  have htile' := List.mem_map_of_mem (f := JpegTile.draw) htile
  rw [hdraw, List.mem_singleton] at htile'
  obtain ⟨x, hx, y, cb, cr, rfl, hy, rfl, rfl⟩ := hcolor tile htile 0 0 0 0
    (by rw [htile']; decide) (by rw [htile']; decide) (by rw [htile']; rfl) (by rw [htile']; rfl)
    (by decide)
  rw [Nat.zero_mul] at hx
  refine ⟨y, hx, ?_⟩
  -- the amplitude of the block is 400
  have hsample : Accurate (fun _ => 4) 0 (100 :: List.replicate 63 0) 0 0 y := hy
  have hnear := hsample (by decide +kernel)
  have hloss : loss (100 :: List.replicate 63 0) = 100 * 2 ^ 16 := by decide +kernel
  rw [exactSample_gray, hloss] at hnear
  norm_num at hnear ⊢
  exact hnear

end Ivy.Spec
