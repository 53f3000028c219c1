import Ivy.ForStd.Tiling
import Ivy.Native.JpegDec
import Mathlib.Order.Basic

/-!
# The draw blocks tile the picture

At full size the blocks of a row are groups of `iMCUCount` MCUs and a last, smaller one; the rows
lie one below the other and the last one is trimmed. `InRow` is the invariant of the loop over the
columns, in MCUs: the group that is being filled, and how far it is.
-/

namespace Ivy.Spec

open Ivy.Native

def drawRect (d : JpegDraw) : Rect := ⟨d.x, d.y, d.iWidth, d.iHeight⟩

/-- Every MCU can be decoded and there is memory for every block. -/
def noFailures : DecodeEnv := ⟨fun _ _ => false, fun _ _ => true⟩

/-- The sizes of an MCU at full size. -/
structure FullSize (g : McuGrid) : Prop where
  mcuCX : g.mcuCX = 8 ∨ g.mcuCX = 16
  mcuCY : g.mcuCY = 8 ∨ g.mcuCY = 16

/-! ## One row -/

section

variable {p : JpegImage} {g : McuGrid} {s : DrawState} {x first size : Nat}

/-- Before column `x`: the group of `size` MCUs from column `first` on is being filled. -/
structure InRow (p : JpegImage) (g : McuGrid) (s : DrawState) (x first size : Nat) : Prop where
  noErr : s.iErr = false
  first_le : first ≤ x
  inGroup : x = first ∨ x < first + size
  last_le : first + size ≤ g.cx
  size_eq : (size : Int) = min (p.mcuCount g) (g.cx - first)
  jdX : s.jdX = first * g.mcuCX
  xoff : s.xoff = (x - first : Int) * g.mcuCX
  iPitch : s.iPitch = size * g.mcuCX

/-- A group is complete at its last column. -/
theorem InRow.complete_iff (h : InRow p g s x first size) (hg : FullSize g)
    (hcount : 1 ≤ p.mcuCount g) :
    (s.xoff + g.mcuCX = s.iPitch ∨ x + 1 = g.cx) ↔ x + 1 = first + size := by
  have hsize := h.size_eq
  have hfirst := h.first_le
  have hgroup := h.inGroup
  have hlast := h.last_le
  rw [h.xoff, h.iPitch]
  rcases hg.mcuCX with hw | hw <;> rw [hw] <;> omega

/-- An MCU that does not complete its group. -/
theorem InRow.mcuStep_inside (h : InRow p g s x first size) (hg : FullSize g)
    (hcount : 1 ≤ p.mcuCount g) (hin : x + 1 ≠ first + size) (y : Nat) :
    p.mcuStep g noFailures y x s = ({ s with iErr := false, xoff := s.xoff + g.mcuCX }, []) :=
  if_neg fun hdone => hin ((h.complete_iff hg hcount).mp hdone)

/-- Inside a group nothing is drawn. -/
theorem InRow.inside (h : InRow p g s x first size) (hcount : 1 ≤ p.mcuCount g) (hx : x < g.cx)
    (hin : x + 1 ≠ first + size) :
    InRow p g { s with iErr := false, xoff := s.xoff + g.mcuCX } (x + 1) first size := by
  have hsize := h.size_eq
  have hfirst := h.first_le
  have hgroup := h.inGroup
  refine ⟨rfl, by omega, by omega, h.last_le, hsize, h.jdX, ?_, h.iPitch⟩
  show s.xoff + g.mcuCX = _
  rw [h.xoff, show ((x + 1 : Nat) : Int) - first = (x - first) + 1 by omega, Int.add_mul,
    Int.one_mul]

/-- The state behind an MCU that completes its group. -/
def groupDone (p : JpegImage) (g : McuGrid) (x : Nat) (s : DrawState) : DrawState :=
  { s with
    iErr := false
    xoff := 0
    jdHeight := p.trimmed g s
    jdX := s.jdX + s.iPitch
    iPitch :=
      if (g.cx - 1 - x : Int) < p.mcuCount g then (g.cx - 1 - x : Int) * g.mcuCX else s.iPitch }

/-- At the end of a group its tile is drawn. -/
theorem InRow.mcuStep_last (h : InRow p g s x first size) (hg : FullSize g)
    (hcount : 1 ≤ p.mcuCount g) (hlast : x + 1 = first + size) (y : Nat) :
    p.mcuStep g noFailures y x s =
      (groupDone p g x s, [⟨s.jdX, s.jdY, s.iPitch, p.trimmed g s⟩]) :=
  if_pos ((h.complete_iff hg hcount).mpr hlast)

/-- Then the next group begins. -/
theorem InRow.last (h : InRow p g s x first size) (hg : FullSize g) (hcount : 1 ≤ p.mcuCount g)
    (hx : x < g.cx) (hlast : x + 1 = first + size) :
    ∃ size', InRow p g (groupDone p g x s) (x + 1) (x + 1) size' := by
  have hsize := h.size_eq
  have hle := h.last_le
  refine ⟨(min (p.mcuCount g) (g.cx - (x + 1 : Nat))).toNat, rfl, Nat.le_refl _, .inl rfl,
    by omega, by omega, ?_, ?_, ?_⟩
  · show s.jdX + s.iPitch = _
    rw [h.jdX, h.iPitch, ← Int.add_mul, hlast]
    rfl
  · show (0 : Int) = _
    simp
  · -- the pitch is cut to the MCUs that are left
    show (if (g.cx - 1 - x : Int) < p.mcuCount g then _ else _) = _
    rw [h.iPitch]
    rcases hg.mcuCX with hw | hw <;> rw [hw] <;> split <;> omega

/-- The block height does not change in a row. -/
theorem trimmed_groupDone : p.trimmed g (groupDone p g x s) = p.trimmed g s := by
  unfold JpegImage.trimmed groupDone
  dsimp only
  split
  · rfl
  · rename_i hin
    unfold JpegImage.trimmed
    rw [if_neg hin]

/-- What a row puts into the queue: blocks side by side up to the last MCU, none wider than
    `iMCUCount` MCUs. -/
structure RowDone (p : JpegImage) (g : McuGrid) (s : DrawState)
    (result : DrawState × List JpegDraw) : Prop where
  row : Row s.jdY (p.trimmed g s) s.jdX (g.cx * g.mcuCX) (result.2.map drawRect)
  width_le : ∀ d ∈ result.2, 0 ≤ d.iWidth ∧ d.iWidth ≤ p.mcuCount g * g.mcuCX
  height_eq : ∀ d ∈ result.2, d.iHeight = p.trimmed g s
  jdY : result.1.jdY = s.jdY
  noErr : result.1.iErr = false
  trimmed : p.trimmed g result.1 = p.trimmed g s

/-- A row of MCUs is drawn from left to right. -/
theorem InRow.rowLoop (hg : FullSize g) (hcount : 1 ≤ p.mcuCount g) (y n : Nat)
    (h : InRow p g s x first size) (hn : x + n = g.cx) :
    RowDone p g s (p.rowLoop g noFailures y n x s) := by
  induction n generalizing s x first size with
  | zero =>
    -- behind the last column the group is empty
    have hend : first = g.cx := by
      have hgroup := h.inGroup
      have hlast := h.last_le
      omega
    refine ⟨?_, nofun, nofun, rfl, h.noErr, rfl⟩
    rw [h.jdX, hend]
    exact .nil _
  | succ n ih =>
    have hx : x < g.cx := by omega
    by_cases hlast : x + 1 = first + size
    · -- a block, and the row from the next group on
      obtain ⟨size', hnext⟩ := h.last hg hcount hx hlast
      have hrest := ih hnext (by omega)
      have htrim := trimmed_groupDone (p := p) (g := g) (s := s) (x := x)
      have hpitch : 0 ≤ s.iPitch ∧ s.iPitch ≤ p.mcuCount g * g.mcuCX := by
        have hsize := h.size_eq
        rw [h.iPitch]
        rcases hg.mcuCX with hw | hw <;> rw [hw] <;> omega
      rw [JpegImage.rowLoop, if_neg (by simp [h.noErr]), h.mcuStep_last hg hcount hlast]
      refine ⟨?_, ?_, ?_, hrest.jdY, hrest.noErr, hrest.trimmed.trans htrim⟩
      · have hrow := hrest.row
        rw [htrim] at hrow
        exact .cons hpitch.1 hrow
      · rintro d (_ | ⟨_, hd⟩)
        · exact hpitch
        · exact hrest.width_le d hd
      · rintro d (_ | ⟨_, hd⟩)
        · rfl
        · exact (hrest.height_eq d hd).trans htrim
    · have hrest := ih (h.inside hcount hx hlast) (by omega)
      rw [JpegImage.rowLoop, if_neg (by simp [h.noErr]), h.mcuStep_inside hg hcount hlast]
      exact ⟨hrest.row, hrest.width_le, hrest.height_eq, hrest.jdY, hrest.noErr, hrest.trimmed⟩

end

/-! ## All rows -/

section

variable {p : JpegImage} {g : McuGrid}

/-- A full-size decode to the upper left corner, with as many rows as the picture needs. -/
structure FullDecode (p : JpegImage) (g : McuGrid) : Prop where
  scale : p.scale = .full
  iXOffset : p.iXOffset = 0
  iYOffset : p.iYOffset = 0
  size : FullSize g
  count : 1 ≤ p.mcuCount g
  count_le : p.mcuCount g ≤ g.cx
  rows : ∀ y, y < g.cy ↔ y * g.mcuCY < p.iHeight

/-- The height of the blocks of a row. -/
theorem FullDecode.trimmed_eq (h : FullDecode p g) {s : DrawState} {y : Nat}
    (hy : s.jdY = y * g.mcuCY) (hheight : s.jdHeight = g.mcuCY) :
    p.trimmed g s = min (g.mcuCY : Int) (p.iHeight - y * g.mcuCY) := by
  unfold JpegImage.trimmed
  rw [hy, hheight, h.iYOffset, h.scale, JpegScale.shift, Nat.shiftRight_zero]
  split <;> omega

/-- A row starts with a full group. -/
theorem FullDecode.inRow (h : FullDecode p g) {s : DrawState} (herr : s.iErr = false) :
    InRow p g { s with jdX := p.iXOffset, xoff := 0, iPitch := p.mcuCount g * g.mcuCX } 0 0
      (p.mcuCount g).toNat := by
  have hcount := h.count
  have hle := h.count_le
  -- the first group of the row, with all of its MCUs to come
  refine ⟨herr, Nat.le_refl 0, .inl rfl, by omega, by omega, ?_, ?_, ?_⟩
  · show p.iXOffset = _
    rw [h.iXOffset]
    simp
  · show (0 : Int) = _
    simp
  · show p.mcuCount g * g.mcuCX = _
    rw [Int.toNat_of_nonneg (by omega)]

/-- What the rows from `y` on put into the queue. -/
structure RowsDone (p : JpegImage) (g : McuGrid) (y : Nat) (draws : List JpegDraw) : Prop where
  grid : Grid 0 (g.cx * g.mcuCX) (min (y * g.mcuCY) p.iHeight) p.iHeight (draws.map drawRect)
  width_le : ∀ d ∈ draws, 0 ≤ d.iWidth ∧ d.iWidth ≤ p.mcuCount g * g.mcuCX
  height_le : ∀ d ∈ draws, 0 ≤ d.iHeight ∧ d.iHeight ≤ g.mcuCY

/-- No block is larger than five MCUs of 256 pixels. -/
theorem RowsDone.area_le {y : Nat} {draws : List JpegDraw} (hdone : RowsDone p g y draws)
    (hg : FullSize g) (hcount : p.mcuCount g ≤ 5) {d : JpegDraw} (hd : d ∈ draws) :
    d.iWidth * d.iHeight ≤ 1280 := by
  obtain ⟨-, hwidth⟩ := hdone.width_le d hd
  obtain ⟨hnonneg, hheight⟩ := hdone.height_le d hd
  have hwidest : d.iWidth ≤ 5 * g.mcuCX :=
    Int.le_trans hwidth (Int.mul_le_mul_of_nonneg_right hcount (Int.natCast_nonneg _))
  calc d.iWidth * d.iHeight
      ≤ 5 * g.mcuCX * g.mcuCY := Int.mul_le_mul hwidest hheight hnonneg (by omega)
    _ ≤ 1280 := by
      rcases hg.mcuCX with hx | hx <;> rcases hg.mcuCY with hy | hy <;> rw [hx, hy] <;> decide

section

variable (h : FullDecode p g) {s : DrawState} {y : Nat} {row : DrawState × List JpegDraw}
  (hrow : RowDone p g s row) (hy : s.jdY = y * g.mcuCY) (hheight : s.jdHeight = g.mcuCY)

include h hrow hy hheight

/-- Above the last row nothing is trimmed. -/
theorem FullDecode.next_height (hmore : y + 1 < g.cy) : row.1.jdHeight = g.mcuCY := by
  have hfits := (h.rows (y + 1)).mp hmore
  have hafter := hrow.trimmed.trans (h.trimmed_eq hy hheight)
  rw [Nat.add_mul, Nat.one_mul] at hfits
  rw [JpegImage.trimmed, hrow.jdY, hy, h.iYOffset, h.scale, JpegScale.shift, Nat.shiftRight_zero,
    if_neg (by omega)] at hafter
  omega

/-- A row and the rows below it. -/
theorem FullDecode.rowsDone_cons {draws : List JpegDraw} (hx : s.jdX = 0) (hin : y < g.cy)
    (hrest : RowsDone p g (y + 1) draws) : RowsDone p g y (row.2 ++ draws) := by
  have hlt := (h.rows y).mp hin
  have htrim := h.trimmed_eq hy hheight
  refine ⟨?_, ?_, ?_⟩
  · have hline := hrow.row
    have hgrid := hrest.grid
    -- the rows below begin where this one ends
    have hnext : min (((y + 1 : Nat) : Int) * g.mcuCY) p.iHeight =
        y * g.mcuCY + min (g.mcuCY : Int) (p.iHeight - y * g.mcuCY) := by
      rw [Int.natCast_add, Int.add_mul, Int.natCast_one, Int.one_mul]
      omega
    rw [htrim, hx, hy] at hline
    rw [hnext] at hgrid
    rw [List.map_append, show min ((y : Int) * g.mcuCY) p.iHeight = y * g.mcuCY by omega]
    exact .row (by omega) hline hgrid
  · intro d hd
    rcases List.mem_append.mp hd with hd | hd
    · exact hrow.width_le d hd
    · exact hrest.width_le d hd
  · intro d hd
    rcases List.mem_append.mp hd with hd | hd
    · rw [hrow.height_eq d hd, htrim]
      omega
    · exact hrest.height_le d hd

end

/-- The rows are drawn from top to bottom. -/
theorem FullDecode.rowsLoop (h : FullDecode p g) (n y : Nat) {s : DrawState}
    (hn : y + n = g.cy) (herr : s.iErr = false) (hy : s.jdY = y * g.mcuCY)
    (hheight : y < g.cy → s.jdHeight = g.mcuCY) :
    RowsDone p g y (p.rowsLoop g noFailures n y s) := by
  induction n generalizing s y with
  | zero =>
    -- the rows reach the lower edge
    have hend : ¬ y * g.mcuCY < p.iHeight := by
      rw [← h.rows]
      omega
    refine ⟨?_, nofun, nofun⟩
    rw [show min ((y : Int) * g.mcuCY) p.iHeight = p.iHeight by omega]
    exact .nil _
  | succ n ih =>
    have hin : y < g.cy := by omega
    have hrow := (h.inRow herr).rowLoop h.size h.count y g.cx (Nat.zero_add _)
    have hdown : (y * g.mcuCY + g.mcuCY : Int) = ((y + 1 : Nat) : Int) * g.mcuCY := by
      rw [Int.natCast_add, Int.add_mul, Int.natCast_one, Int.one_mul]
    rw [JpegImage.rowsLoop, if_neg (by simp [herr])]
    apply h.rowsDone_cons hrow hy (hheight hin) h.iXOffset hin
    refine ih (y + 1) (by omega) hrow.noErr ?_ (h.next_height hrow hy (hheight hin))
    exact (congrArg (· + (g.mcuCY : Int)) (hrow.jdY.trans hy)).trans hdown

/-- The supported kinds of subsampling have MCUs of 8 or 16 pixels, as many as the picture
    needs. -/
theorem mcuGrid_full (hscale : p.scale = .full)
    (hsub : p.ucSubSample ∈ [0x00, 0x01, 0x11, 0x12, 0x21, 0x22]) :
    ∃ g, p.mcuGrid = some g ∧ FullSize g ∧ g.cx = (p.iWidth + g.mcuCX - 1) / g.mcuCX ∧
      g.cy = (p.iHeight + g.mcuCY - 1) / g.mcuCY := by
  simp only [List.mem_cons, List.not_mem_nil, or_false] at hsub
  rcases hsub with h | h | h | h | h | h <;>
    simp only [JpegImage.mcuGrid, h, hscale, JpegScale.shift, Nat.shiftRight_eq_div_pow]
  · exact ⟨_, rfl, ⟨.inl rfl, .inl rfl⟩, rfl, rfl⟩
  · exact ⟨_, rfl, ⟨.inl rfl, .inl rfl⟩, rfl, rfl⟩
  · exact ⟨_, rfl, ⟨.inl rfl, .inl rfl⟩, rfl, rfl⟩
  · exact ⟨_, rfl, ⟨.inl rfl, .inr rfl⟩, rfl, rfl⟩
  · exact ⟨_, rfl, ⟨.inr rfl, .inl rfl⟩, rfl, rfl⟩
  · exact ⟨_, rfl, ⟨.inr rfl, .inr rfl⟩, rfl, rfl⟩

/-- With RGB565 pixels the upper bound set from outside is the one that counts. -/
theorem mcuCount_eq (hg : FullSize g) (hmax : p.iMaxMCUs = maxMcu)
    (hpixel : p.ucPixelType = .rgb565LittleEndian ∨ p.ucPixelType = .rgb565BigEndian) :
    p.mcuCount g = min (g.cx : Int) 5 := by
  have hgray : p.ucPixelType ≠ .eightBitGrayscale ∧ p.ucPixelType.dithered = false := by
    rcases hpixel with h | h <;> rw [h] <;> decide
  have hbuffer : 10 ≤ maxBufferedPixels / (g.mcuCX * g.mcuCY) := by
    rcases hg.mcuCX with hw | hw <;> rcases hg.mcuCY with hh | hh <;> rw [hw, hh] <;> decide
  simp only [JpegImage.mcuCount, hgray, if_false, hmax, maxMcu, Bool.false_eq_true]
  split <;> split <;> omega

/-- The assumptions of a full size decoding. -/
theorem fullDecode (hscale : p.scale = .full) (hx : p.iXOffset = 0) (hy : p.iYOffset = 0)
    (hg : FullSize g) (hcx : g.cx = (p.iWidth + g.mcuCX - 1) / g.mcuCX)
    (hcy : g.cy = (p.iHeight + g.mcuCY - 1) / g.mcuCY) (hwidth : 1 ≤ p.iWidth)
    (hcount : p.mcuCount g = min (g.cx : Int) 5) : FullDecode p g := by
  have hpos : 1 ≤ g.cx := by
    rcases hg.mcuCX with hw | hw <;> rw [hcx, hw] <;> omega
  refine ⟨hscale, hx, hy, hg, by omega, by omega, fun y => ?_⟩
  -- `cy` is the height divided by the height of an MCU, rounded up
  rcases hg.mcuCY with hh | hh <;> rw [hcy, hh] <;> omega

end

/-- For every picture and every supported subsampling: at full size, with RGB565 pixels, the blocks
    are disjoint, fill the columns of MCUs down to the height of the picture, and fit into the
    buffer that is allocated for each of them and into the one they are copied from. -/
theorem draw_blocks_tile (p : JpegImage) (hwidth : 1 ≤ p.iWidth)
    (hsub : p.ucSubSample ∈ [0x00, 0x01, 0x11, 0x12, 0x21, 0x22])
    (hpixel : p.ucPixelType = .rgb565LittleEndian ∨ p.ucPixelType = .rgb565BigEndian) :
    ∃ g draws, { p with scale := .full }.mcuGrid = some g ∧
      (p.setMaxOutputSize maxMcu).decode noFailures 0 0 .full = some draws ∧
      (p.iWidth ≤ g.cx * g.mcuCX ∧ g.cx * g.mcuCX < p.iWidth + g.mcuCX) ∧
      (draws.map drawRect).Pairwise Rect.Disjoint ∧
      (∀ px py, (∃ r ∈ draws.map drawRect, r.Covers px py) ↔
        (0 ≤ px ∧ px < g.cx * g.mcuCX) ∧ 0 ≤ py ∧ py < p.iHeight) ∧
      ∀ d ∈ draws, d.iWidth * d.iHeight * 2 ≤ maxMcu * mcuSize * 2 ∧
        d.iWidth * d.iHeight * 2 ≤ maxBufferedPixels * 2 := by
  obtain ⟨g, hgrid, hg, hcx, hcy⟩ := mcuGrid_full (p := { p with scale := .full }) rfl hsub
  have hdecode := fullDecode (g := g)
    (p := { p.setMaxOutputSize maxMcu with iXOffset := 0, iYOffset := 0, scale := .full })
    rfl rfl rfl hg hcx hcy hwidth (mcuCount_eq hg rfl hpixel)
  have hdone := hdecode.rowsLoop g.cy 0 (s := ⟨0, 0, g.mcuCY, 0, 0, false⟩) (Nat.zero_add _) rfl
    (by simp) fun _ => rfl
  have hcount := mcuCount_eq (g := g)
    (p := { p.setMaxOutputSize maxMcu with iXOffset := 0, iYOffset := 0, scale := .full }) hg rfl
    hpixel
  refine ⟨g, _, hgrid, ?_, ?_, hdone.grid.disjoint, fun px py => ?_, fun d hd => ?_⟩
  · show Option.map _ ({ p with scale := .full } : JpegImage).mcuGrid = _
    rw [hgrid]
    rfl
  · rcases hg.mcuCX with hw | hw <;> rw [hw] at hcx ⊢ <;> dsimp only at hcx <;> omega
  · apply (hdone.grid.covers_iff px py).trans
    show _ ∧ min (((0 : Nat) : Int) * g.mcuCY) p.iHeight ≤ py ∧ py < (p.iHeight : Int) ↔ _
    rw [Int.natCast_zero, Int.zero_mul, Int.min_eq_left (Int.natCast_nonneg _)]
  · -- no tile is larger than the buffer
    have harea := hdone.area_le hg (by omega) hd
    simp only [maxMcu, mcuSize, maxBufferedPixels]
    omega

/-- A picture of 100 times 20 pixels with MCUs of 16 times 16: a row of full blocks and a trimmed
    one. -/
theorem draw_blocks_tile_small :
    ∃ g draws, JpegImage.mcuGrid ⟨100, 20, 0x22, .rgb565BigEndian, 1000, 0, 0, .full⟩ = some g ∧
      (JpegImage.setMaxOutputSize ⟨100, 20, 0x22, .rgb565BigEndian, 1000, 0, 0, .full⟩
        maxMcu).decode noFailures 0 0 .full = some draws ∧
      (draws.map drawRect).Pairwise Rect.Disjoint ∧
      draws = [⟨0, 0, 80, 16⟩, ⟨80, 0, 32, 16⟩, ⟨0, 16, 80, 4⟩, ⟨80, 16, 32, 4⟩] := by
  obtain ⟨g, draws, hgrid, hdraws, -, hdisjoint, -⟩ :=
    draw_blocks_tile ⟨100, 20, 0x22, .rgb565BigEndian, 1000, 0, 0, .full⟩ (by decide) (by decide)
      (.inr rfl)
  refine ⟨g, draws, hgrid, hdraws, hdisjoint, ?_⟩
  exact Option.some.inj (hdraws.symm.trans (by decide))

end Ivy.Spec
