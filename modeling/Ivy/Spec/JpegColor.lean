import Ivy.Native.JpegPut
import Ivy.Spec.JpegPixels

/-!
# The colours of the pixels

The tables limit every colour to eight bits, and the multiplications by constants with 12 fraction
bits are the conversion of the standard up to rounding. Every pixel of an MCU gets its luminance
from its own place, and its chroma from the block that is shared by the luminance blocks.
-/

namespace Ivy.Spec

open Ivy.Native

/-! ## The conversion -/

/-- The nearest 8-bit value. -/
def clamp8 (v : Int) : Nat := (max 0 (min 255 v)).toNat

/-- The red, green and blue value of a pixel, with constants of 12 fraction bits. -/
def red (y cr : UInt8) : Nat := clamp8 (y.toNat + 5742 * (cr.toNat - 128 : Int) / 4096)

def green (y cb cr : UInt8) : Nat :=
  clamp8 (y.toNat + (-1409 * (cb.toNat - 128 : Int) + -2925 * (cr.toNat - 128 : Int)) / 4096)

def blue (y cb : UInt8) : Nat := clamp8 (y.toNat + 7258 * (cb.toNat - 128 : Int) / 4096)

/-- 5 bits of red, 6 bits of green and 5 bits of blue. -/
def rgb565 (r g b : Nat) : UInt16 := UInt16.ofNat (r / 8 * 2 ^ 11 + g / 4 * 2 ^ 5 + b / 8)

def color (y cb cr : UInt8) : UInt16 := rgb565 (red y cr) (green y cb cr) (blue y cb)

/-- A value that is limited is a byte. -/
theorem clamp8_lt (v : Int) : clamp8 v < 256 := by
  rw [clamp8]
  omega

/-- The index in the range table, as a number. -/
theorem colorIndex_ofInt (v : Int) : colorIndex (Int32.ofInt v) = (v / 4096 % 1024).toNat := by
  -- the index is taken from bits 12 to 21, which a wrap at 32 bits does not touch
  have hnat : (Int32.ofInt v).toBitVec.toNat = (v % 2 ^ 32).toNat := by
    rw [Int32.toBitVec_ofInt, BitVec.toNat_ofInt]
    rfl
  rw [colorIndex, tableIndex (k := 12) _ (by decide) rfl, hnat]
  omega

/-- The tables limit a value to eight bits. -/
theorem rangeEntry_clamp {v : Int} (hlow : -512 ≤ v) (hhigh : v < 512) :
    rangeEntry (v % 1024).toNat = clamp8 v := by
  -- the table: 256 values as they are, 256 of 255, and 512 of 0 for what is negative
  rw [rangeEntry, clamp8]
  split
  · omega
  · split <;> omega

/-- The three fields of a pixel do not overlap. -/
theorem fields_or {r g b : Nat} (hr : r < 256) (hg : g < 256) (hb : b < 256) :
    UInt16.ofNat (b >>> 3) ||| UInt16.ofNat (g >>> 2 <<< 5) ||| UInt16.ofNat (r >>> 3 <<< 11) =
      rgb565 r g b := by
  have hb' : b / 2 ^ 3 < 2 ^ 5 := by omega
  have hgb : g / 2 ^ 2 * 2 ^ 5 + b / 2 ^ 3 < 2 ^ 11 := by omega
  -- the fields do not overlap
  have hlow : b / 2 ^ 3 ||| g / 2 ^ 2 * 2 ^ 5 = g / 2 ^ 2 * 2 ^ 5 + b / 2 ^ 3 := by
    rw [Nat.or_comm, ← Nat.shiftLeft_eq, ← Nat.shiftLeft_add_eq_or_of_lt hb']
  apply UInt16.toNat_inj.mp
  simp only [rgb565, UInt16.toNat_or, UInt16.toNat_ofNat', Nat.shiftLeft_eq,
    Nat.shiftRight_eq_div_pow]
  rw [Nat.mod_eq_of_lt (by omega), Nat.mod_eq_of_lt (by omega), Nat.mod_eq_of_lt (by omega),
    Nat.mod_eq_of_lt (by omega), hlow, Nat.or_comm, ← Nat.shiftLeft_eq (r / 2 ^ 3),
    ← Nat.shiftLeft_add_eq_or_of_lt hgb, Nat.shiftLeft_eq, Nat.add_assoc]
  rfl

/-- A byte as a signed number, -/
theorem byte_toInt32 (b : UInt8) : b.toUInt32.toInt32 = Int32.ofInt b.toNat := by
  rw [toInt32_eq_ofInt, UInt8.toNat_toUInt32]

/-- and shifted by the twelve bits of the fraction. -/
theorem byte_shifted (b : UInt8) : b.toUInt32.toInt32 <<< 12 = Int32.ofInt (4096 * b.toNat) := by
  have hall : ∀ n < 256, (UInt8.ofNat n).toUInt32.toInt32 <<< 12 =
      Int32.ofInt (4096 * (UInt8.ofNat n).toNat) := by decide +kernel
  have h := hall b.toNat b.toNat_lt
  rwa [UInt8.ofNat_toNat] at h

/-- The pixel of a luminance and two chroma values. -/
theorem usPixel_eq (y cb cr : UInt8) :
    usPixel (y.toUInt32.toInt32 <<< 12) cb.toUInt32.toInt32 cr.toUInt32.toInt32 =
      color y cb cr := by
  have hy := y.toNat_lt
  have hcb := cb.toNat_lt
  have hcr := cr.toNat_lt
  -- all values are those of integers
  have hB : 7258 * (Int32.ofInt cb.toNat - 0x80) + Int32.ofInt (4096 * y.toNat) =
      Int32.ofInt (7258 * (cb.toNat - 128) + 4096 * y.toNat) := by
    simp only [Int32.ofInt_add, Int32.ofInt_mul, Int32.ofInt_sub]
    rfl
  have hR : 5742 * (Int32.ofInt cr.toNat - 0x80) + Int32.ofInt (4096 * y.toNat) =
      Int32.ofInt (5742 * (cr.toNat - 128) + 4096 * y.toNat) := by
    simp only [Int32.ofInt_add, Int32.ofInt_mul, Int32.ofInt_sub]
    rfl
  have hG : -1409 * (Int32.ofInt cb.toNat - 0x80) + -2925 * (Int32.ofInt cr.toNat - 0x80) +
      Int32.ofInt (4096 * y.toNat) =
        Int32.ofInt (-1409 * (cb.toNat - 128) + -2925 * (cr.toNat - 128) + 4096 * y.toNat) := by
    simp only [Int32.ofInt_add, Int32.ofInt_mul, Int32.ofInt_sub]
    rfl
  rw [usPixel, byte_shifted, byte_toInt32, byte_toInt32]
  rw [hB, hR, hG, colorIndex_ofInt, colorIndex_ofInt, colorIndex_ofInt, usRangeTableB,
    usRangeTableG, usRangeTableR, rangeEntry_clamp (by omega) (by omega),
    rangeEntry_clamp (by omega) (by omega), rangeEntry_clamp (by omega) (by omega),
    fields_or (clamp8_lt _) (clamp8_lt _) (clamp8_lt _), color, red, green, blue]
  congr 2 <;> omega

/-- Without colour, the conversion gives the luminance. -/
theorem usGrayTo565_eq (y : UInt8) : usGrayTo565 y.toNat = color y 128 128 := by
  have hall : ∀ n < 256, usGrayTo565 n = color (UInt8.ofNat n) 128 128 := by decide +kernel
  have h := hall y.toNat y.toNat_lt
  rwa [UInt8.ofNat_toNat] at h

/-! ## How exact the conversion is -/

/-- An exact value in millionths, limited to the range of eight bits. -/
def clampExact (v : Int) : Int := max 0 (min 255000000 v)

/-- Rounding down a limited value loses less than one. -/
theorem clamp8_near {v w e : Int} (hlow : w - 1000000 - e ≤ 1000000 * v)
    (hhigh : 1000000 * v ≤ w + e)
    (he : 0 ≤ e) : (1000000 * (clamp8 v : Int) - clampExact w).natAbs ≤ 1000000 + e := by
  rw [clamp8, clampExact]
  omega

/-- For all luminance and chroma values, the pixel is made of three 8-bit values that differ by at
    most 1.03 from `Y + 1.402 (Cr - 128)`, `Y - 0.344136 (Cb - 128) - 0.714136 (Cr - 128)` and
    `Y + 1.772 (Cb - 128)`, limited to the range from 0 to 255. -/
theorem pixel_accurate (y cb cr : UInt8) :
    ∃ r g b : Nat, r < 256 ∧ g < 256 ∧ b < 256 ∧
      jpegPixelLE (y.toUInt32.toInt32 <<< 12) cb.toUInt32.toInt32 cr.toUInt32.toInt32 =
        rgb565 r g b ∧
      jpegPixelBE (y.toUInt32.toInt32 <<< 12) cb.toUInt32.toInt32 cr.toUInt32.toInt32 =
        bswap16 (rgb565 r g b) ∧
      (1000000 * (r : Int) - clampExact (1000000 * y.toNat + 1402000 * (cr.toNat - 128))).natAbs ≤
        1020000 ∧
      (1000000 * (g : Int) - clampExact (1000000 * y.toNat - 344136 * (cb.toNat - 128) -
        714136 * (cr.toNat - 128))).natAbs ≤ 1030000 ∧
      (1000000 * (b : Int) - clampExact (1000000 * y.toNat + 1772000 * (cb.toNat - 128))).natAbs ≤
        1010000 := by
  have hcb := cb.toNat_lt
  have hcr := cr.toNat_lt
  refine ⟨red y cr, green y cb cr, blue y cb, clamp8_lt _, clamp8_lt _, clamp8_lt _,
    usPixel_eq y cb cr, congrArg bswap16 (usPixel_eq y cb cr), ?_, ?_, ?_⟩
  · -- the coefficients are off by less than 1/8192, and the division rounds down
    have h := clamp8_near (v := y.toNat + 5742 * (cr.toNat - 128 : Int) / 4096)
      (w := 1000000 * y.toNat + 1402000 * (cr.toNat - 128)) (e := 20000) (by omega) (by omega)
      (by decide)
    rw [red]
    omega
  · -- two products are added before the division rounds
    have h := clamp8_near (e := 30000)
      (v := y.toNat + (-1409 * (cb.toNat - 128 : Int) + -2925 * (cr.toNat - 128 : Int)) / 4096)
      (w := 1000000 * y.toNat - 344136 * (cb.toNat - 128) - 714136 * (cr.toNat - 128)) (by omega)
      (by omega) (by decide)
    rw [green]
    omega
  · have h := clamp8_near (v := y.toNat + 7258 * (cb.toNat - 128 : Int) / 4096)
      (w := 1000000 * y.toNat + 1772000 * (cb.toNat - 128)) (e := 10000) (by omega) (by omega)
      (by decide)
    rw [blue]
    omega

/-! ## The pixels of an MCU -/

/-- A pixel in the order of the bytes that the pixel type asks for. -/
def ordered (ucPixelType : PixelType) (x : UInt16) : UInt16 :=
  if ucPixelType = .rgb565LittleEndian then x else bswap16 x

/-- The colour of the pixel in row `r` and column `c` of an MCU of `w` times `h` pixels. In colour,
    the chroma blocks lie behind the luminance blocks, and are stretched over the MCU. -/
def mcuColor (gray : Bool) (w h : Nat) (sMCUs : Nat → Int16) (r c : Nat) : UInt16 :=
  let y := mcuByte sMCUs (64 * (r / 8 * (w / 8) + c / 8)) (8 * (r % 8) + c % 8)
  if gray then color y 128 128
  else
    let n := w / 8 * (h / 8)
    let i := 8 * (r / (h / 8)) + c / (w / 8)
    color y (mcuByte sMCUs (64 * n) i) (mcuByte sMCUs (64 * (n + 1)) i)

/-- The bytes of the later blocks. -/
theorem mcuByte_add (sMCUs : Nat → Int16) (iMCU b i : Nat) :
    mcuByte sMCUs iMCU (128 * b + i) = mcuByte sMCUs (iMCU + 64 * b) i := by
  -- a block is 64 elements of two bytes each
  rw [mcuByte, mcuByte, show iMCU + (128 * b + i) / 2 = iMCU + 64 * b + i / 2 by omega,
    show (128 * b + i) % 2 = i % 2 by omega]

/-- Two pixels of one word. -/
theorem word_halves (a b : UInt16) :
    (a.toUInt32 ||| b.toUInt32 <<< 16).toUInt16 = a ∧
      ((a.toUInt32 ||| b.toUInt32 <<< 16) >>> 16).toUInt16 = b := by
  have ha := a.toNat_lt
  have hb := b.toNat_lt
  -- the halves do not overlap
  have hword : (a.toUInt32 ||| b.toUInt32 <<< 16).toNat = b.toNat * 2 ^ 16 + a.toNat := by
    rw [UInt32.toNat_or, UInt32.toNat_shiftLeft, UInt16.toNat_toUInt32, UInt16.toNat_toUInt32,
      Nat.or_comm]
    simp only [UInt32.reduceToNat, Nat.reduceMod, Nat.shiftLeft_eq]
    rw [Nat.mod_eq_of_lt (by omega), ← Nat.shiftLeft_eq, ← Nat.shiftLeft_add_eq_or_of_lt ha]
  constructor
  · apply UInt16.toNat_inj.mp
    rw [UInt32.toNat_toUInt16, hword]
    omega
  · apply UInt16.toNat_inj.mp
    rw [UInt32.toNat_toUInt16, UInt32.toNat_shiftRight, hword, Nat.shiftRight_eq_div_pow]
    simp only [UInt32.reduceToNat, Nat.reduceMod]
    omega

section

variable (src : McuSource)

/-- The colour of a luminance byte and a chroma byte. -/
def sourceColor (y c : Nat) : UInt16 :=
  ordered src.ucPixelType (color (mcuByte src.sMCUs 0 y) (mcuByte src.sMCUs src.cb c)
    (mcuByte src.sMCUs src.cr c))

/-- One pixel of a source, -/
theorem pixel_eq (pDest y c : Nat) : src.pixel pDest y c = [(pDest, sourceColor src y c)] := by
  rw [McuSource.pixel, jpegPixelLE, jpegPixelBE, McuSource.Y, McuSource.Cb, McuSource.Cr,
    usPixel_eq]
  rfl

/-- and two of them. -/
theorem pixel2_eq (pDest y c : Nat) :
    src.pixel2 pDest y c =
      [(pDest, sourceColor src y c), (pDest + 1, sourceColor src (y + 1) c)] := by
  simp only [McuSource.pixel2, jpegPixel2LE, jpegPixel2BE, McuSource.Y, McuSource.Cb, McuSource.Cr,
    usPixel_eq, sourceColor, ordered]
  -- a pair of pixels is written as one word of 32 bits
  split <;> rw [(word_halves _ _).1, (word_halves _ _).2]

/-- A pixel pair in each of two rows. -/
theorem mem_quad {bUseOdd : Bool} {iXCount iCol pOutput iPitch y c : Nat} {w : Nat × UInt16} :
    w ∈ src.quad bUseOdd iXCount iCol pOutput iPitch y c ↔
      ∃ dr dc, dr < 2 ∧ dc < 2 ∧ (dc = 1 → bUseOdd = true ∨ iCol + 1 ≠ iXCount) ∧
        w = (pOutput + dr * iPitch + (2 * iCol + dc), sourceColor src (y + 8 * dr + dc) c) := by
  -- the four pixels one by one
  have hrange : ∀ n, n < 2 ↔ n = 0 ∨ n = 1 := by omega
  rw [McuSource.quad]
  split
  · rename_i hodd
    simp only [pixel2_eq, List.mem_append, List.mem_cons, List.not_mem_nil, or_false, hrange]
    constructor
    · rintro ((rfl | rfl) | (rfl | rfl))
      · exact ⟨0, 0, .inl rfl, .inl rfl, fun _ => hodd, by simp⟩
      · exact ⟨0, 1, .inl rfl, .inr rfl, fun _ => hodd, by simp [Nat.add_assoc]⟩
      · exact ⟨1, 0, .inr rfl, .inl rfl, fun _ => hodd, by simp⟩
      · exact ⟨1, 1, .inr rfl, .inr rfl, fun _ => hodd, by simp [Nat.add_assoc]⟩
    · rintro ⟨dr, dc, rfl | rfl, rfl | rfl, -, rfl⟩ <;> simp [Nat.add_assoc]
  · rename_i hodd
    simp only [pixel_eq, List.mem_append, List.mem_cons, List.not_mem_nil, or_false, hrange]
    constructor
    · rintro (rfl | rfl)
      · exact ⟨0, 0, .inl rfl, .inl rfl, by simp, by simp⟩
      · exact ⟨1, 0, .inr rfl, .inl rfl, by simp, by simp⟩
    · rintro ⟨dr, dc, rfl | rfl, rfl | rfl, h, rfl⟩
      · simp
      · -- the odd column is left out at the right edge
        exact absurd (h rfl) hodd
      · simp
      · exact absurd (h rfl) hodd

variable {src}

/-- The colour of a pixel is that of its place in the MCU. -/
theorem sourceColor_eq {w h r c y i : Nat}
    (hy : y = 128 * (r / 8 * (w / 8) + c / 8) + (8 * (r % 8) + c % 8))
    (hi : i = 8 * (r / (h / 8)) + c / (w / 8)) (hcb : src.cb = 64 * (w / 8 * (h / 8)))
    (hcr : src.cr = 64 * (w / 8 * (h / 8) + 1)) :
    sourceColor src y i = ordered src.ucPixelType (mcuColor false w h src.sMCUs r c) := by
  rw [sourceColor, hy, hi, hcb, hcr, mcuByte_add, Nat.zero_add]
  rfl

end

/-- What is put for an MCU of `w` times `h` pixels: nothing but its pixels, and all of them in the
    visible columns. -/
structure PutsMcu (gray : Bool) (w h : Nat) (ucPixelType : PixelType) (sMCUs : Nat → Int16)
    (x iPitch : Nat) (visible : Nat → Prop) (ws : List (Nat × UInt16)) : Prop where
  sound : ∀ a ∈ ws, ∃ r c, r < h ∧ c < w ∧
    a = (x + r * iPitch + c, ordered ucPixelType (mcuColor gray w h sMCUs r c))
  complete : ∀ r c, r < h → c < w → visible c →
    (x + r * iPitch + c, ordered ucPixelType (mcuColor gray w h sMCUs r c)) ∈ ws

section

variable (ucPixelType : PixelType) (sMCUs : Nat → Int16) (x iPitch : Nat)

/-- A grayscale MCU is put on its place, -/
theorem putsMcu_gray : PutsMcu true 8 8 ucPixelType sMCUs x iPitch (fun _ => True)
    (jpegPutMCUGray ucPixelType sMCUs x iPitch) := by
  have hcolor : ∀ r c, r < 8 → c < 8 →
      ordered ucPixelType (usGrayTo565 (mcuByte sMCUs 0 (8 * r + c)).toNat) =
        ordered ucPixelType (mcuColor true 8 8 sMCUs r c) := by
    intro r c hr hc
    -- one block, so the place in the MCU is the place in the block
    rw [usGrayTo565_eq, mcuColor, if_pos rfl, Nat.div_eq_of_lt hr, Nat.div_eq_of_lt hc,
      Nat.mod_eq_of_lt hr, Nat.mod_eq_of_lt hc]
  refine ⟨fun a ha => ?_, fun r c hr hc _ => ?_⟩
  · simp only [jpegPutMCUGray, List.mem_flatMap, List.mem_map, List.mem_range] at ha
    obtain ⟨r, hr, c, hc, rfl⟩ := ha
    exact ⟨r, c, hr, hc, by rw [← hcolor r c hr hc]; rfl⟩
  · simp only [jpegPutMCUGray, List.mem_flatMap, List.mem_map, List.mem_range]
    exact ⟨r, hr, c, hc, by rw [← hcolor r c hr hc]; rfl⟩

/-- an MCU with all of the chrominance, -/
theorem putsMcu_11 : PutsMcu false 8 8 ucPixelType sMCUs x iPitch (fun _ => True)
    (jpegPutMCU11 ucPixelType sMCUs x iPitch) := by
  have hcolor : ∀ r c, r < 8 → c < 8 →
      sourceColor ⟨sMCUs, 1 * 64, 2 * 64, ucPixelType⟩ (8 * r + c) (8 * r + c) =
        ordered ucPixelType (mcuColor false 8 8 sMCUs r c) :=
    fun r c hr hc => sourceColor_eq (by omega) (by omega) rfl rfl
  refine ⟨fun a ha => ?_, fun r c hr hc _ => ?_⟩
  · simp only [jpegPutMCU11, pixel_eq, List.mem_flatMap, List.mem_range, List.mem_singleton] at ha
    obtain ⟨r, hr, c, hc, rfl⟩ := ha
    exact ⟨r, c, hr, hc, by rw [hcolor r c hr hc]⟩
  · simp only [jpegPutMCU11, pixel_eq, List.mem_flatMap, List.mem_range, List.mem_singleton]
    exact ⟨r, hr, c, hc, by rw [hcolor r c hr hc]⟩

/-- Row `d` of a pair of rows. -/
theorem pair_row (k d iPitch : Nat) : (2 * k + d) * iPitch = k * (iPitch * 2) + d * iPitch := by
  rw [Nat.add_mul, Nat.mul_comm 2 k, Nat.mul_assoc, Nat.mul_comm 2]

/-- Two rows of pixels share a row of chroma values. -/
theorem mem_putMCU12 {a : Nat × UInt16} :
    a ∈ jpegPutMCU12 ucPixelType sMCUs x iPitch ↔ ∃ k d c, k < 8 ∧ d < 2 ∧ c < 8 ∧
      a = (x + (2 * k + d) * iPitch + c,
        ordered ucPixelType (mcuColor false 8 16 sMCUs (2 * k + d) c)) := by
  have hcolor : ∀ k d c, k < 8 → d < 2 → c < 8 →
      sourceColor ⟨sMCUs, 2 * 64, 3 * 64, ucPixelType⟩
          (16 * k + (if k ≤ 3 then 0 else 128 - 64) + c + 8 * d) (8 * k + c) =
        ordered ucPixelType (mcuColor false 8 16 sMCUs (2 * k + d) c) := by
    intro k d c hk hd hc
    refine sourceColor_eq ?_ (by omega) rfl rfl
    -- from row 8 on the luminance is in the second block
    split <;> omega
  simp only [jpegPutMCU12, pixel_eq, List.mem_flatMap, List.mem_range, List.mem_append,
    List.mem_singleton, pair_row]
  constructor
  · intro ⟨k, hk, c, hc, h⟩
    rcases h with rfl | rfl
    · exact ⟨k, 0, c, hk, by decide, hc, by rw [← hcolor k 0 c hk (by decide) hc]; simp⟩
    · refine ⟨k, 1, c, hk, by decide, hc, ?_⟩
      rw [← hcolor k 1 c hk (by decide) hc]
      simp [Nat.add_assoc]
  · intro ⟨k, d, c, hk, hd, hc, h⟩
    rw [← hcolor k d c hk hd hc] at h
    refine ⟨k, hk, c, hc, ?_⟩
    rcases (show d = 0 ∨ d = 1 by omega) with rfl | rfl
    · exact .inl (by simpa using h)
    · exact .inr (by simpa [Nat.add_assoc] using h)

/-- The left and the right block share a row of chroma values. -/
theorem mem_putMCU21 {a : Nat × UInt16} :
    a ∈ jpegPutMCU21 ucPixelType sMCUs x iPitch ↔ ∃ r b k d, r < 8 ∧ b < 2 ∧ k < 4 ∧ d < 2 ∧
      a = (x + r * iPitch + (8 * b + 2 * k + d),
        ordered ucPixelType (mcuColor false 16 8 sMCUs r (8 * b + 2 * k + d))) := by
  -- two pixels side by side share their chrominance
  have hcolor : ∀ r b k d, r < 8 → b < 2 → k < 4 → d < 2 →
      sourceColor ⟨sMCUs, 2 * 64, 3 * 64, ucPixelType⟩ (8 * r + 2 * k + 128 * b + d)
          (8 * r + k + 4 * b) =
        ordered ucPixelType (mcuColor false 16 8 sMCUs r (8 * b + 2 * k + d)) := by
    intro r b k d hr hb hk hd
    refine sourceColor_eq ?_ (by omega) rfl rfl
    omega
  simp only [jpegPutMCU21, pixel2_eq, List.mem_flatMap, List.mem_range, List.mem_append,
    List.mem_cons, List.not_mem_nil, or_false]
  constructor
  · intro ⟨r, hr, k, hk, h⟩
    rcases h with (rfl | rfl) | (rfl | rfl)
    · refine ⟨r, 0, k, 0, hr, by decide, hk, by decide, ?_⟩
      rw [← hcolor r 0 k 0 hr (by decide) hk (by decide)]
      simp [Nat.mul_comm k]
    · refine ⟨r, 0, k, 1, hr, by decide, hk, by decide, ?_⟩
      rw [← hcolor r 0 k 1 hr (by decide) hk (by decide)]
      simp [Nat.mul_comm k, Nat.add_assoc]
    · refine ⟨r, 1, k, 0, hr, by decide, hk, by decide, ?_⟩
      rw [← hcolor r 1 k 0 hr (by decide) hk (by decide)]
      simp [Nat.mul_comm k, Nat.add_assoc]
    · refine ⟨r, 1, k, 1, hr, by decide, hk, by decide, ?_⟩
      rw [← hcolor r 1 k 1 hr (by decide) hk (by decide)]
      simp [Nat.mul_comm k, Nat.add_assoc]
  · intro ⟨r, b, k, d, hr, hb, hk, hd, h⟩
    rw [← hcolor r b k d hr hb hk hd] at h
    refine ⟨r, hr, k, hk, ?_⟩
    rcases (show b = 0 ∨ b = 1 by omega) with rfl | rfl <;>
      rcases (show d = 0 ∨ d = 1 by omega) with rfl | rfl
    · exact .inl (.inl (by simpa [Nat.mul_comm k] using h))
    · exact .inl (.inr (by simpa [Nat.mul_comm k, Nat.add_assoc] using h))
    · exact .inr (.inl (by simpa [Nat.mul_comm k, Nat.add_assoc] using h))
    · exact .inr (.inr (by simpa [Nat.mul_comm k, Nat.add_assoc] using h))

/-- one with half of it from top to bottom -/
theorem putsMcu_12 : PutsMcu false 8 16 ucPixelType sMCUs x iPitch (fun _ => True)
    (jpegPutMCU12 ucPixelType sMCUs x iPitch) := by
  refine ⟨fun a ha => ?_, fun r c hr hc _ => ?_⟩
  · obtain ⟨k, d, c, hk, hd, hc, rfl⟩ := (mem_putMCU12 _ _ _ _).mp ha
    exact ⟨2 * k + d, c, by omega, hc, rfl⟩
  · exact (mem_putMCU12 _ _ _ _).mpr
      ⟨r / 2, r % 2, c, by omega, by omega, hc, by rw [Nat.div_add_mod]⟩

/-- and one with half of it from left to right. -/
theorem putsMcu_21 : PutsMcu false 16 8 ucPixelType sMCUs x iPitch (fun _ => True)
    (jpegPutMCU21 ucPixelType sMCUs x iPitch) := by
  refine ⟨fun a ha => ?_, fun r c hr hc _ => ?_⟩
  · obtain ⟨r, b, k, d, hr, hb, hk, hd, rfl⟩ := (mem_putMCU21 _ _ _ _).mp ha
    exact ⟨r, 8 * b + 2 * k + d, hr, by omega, rfl⟩
  · refine (mem_putMCU21 _ _ _ _).mpr
      ⟨r, c / 8, c % 8 / 2, c % 2, hr, by omega, by omega, by omega, ?_⟩
    rw [show 8 * (c / 8) + 2 * (c % 8 / 2) + c % 2 = c by omega]

/-- The pixels of one of the four blocks in columns `2 * i` and `2 * i + 1` of the pair `k` of
    rows. -/
theorem mem_quad22 (br bc : Nat) {bUseOdd : Bool} {iXCount pOutput y c k i : Nat} {a : Nat × UInt16}
    (hk : k < 4) (hi : i < 4)
    (hOut : pOutput = x + k * (iPitch * 2) + br * (iPitch * 8) + 8 * bc)
    (hy : y = 16 * k + i * 2 + 128 * (2 * br + bc)) (hc : c = 8 * k + i + 32 * br + 4 * bc) :
    a ∈ McuSource.quad ⟨sMCUs, 4 * 64, 5 * 64, ucPixelType⟩ bUseOdd iXCount i pOutput iPitch y c ↔
      ∃ dr dc, dr < 2 ∧ dc < 2 ∧ (dc = 1 → bUseOdd = true ∨ i + 1 ≠ iXCount) ∧
        a = (x + (8 * br + 2 * k + dr) * iPitch + (8 * bc + 2 * i + dc), ordered ucPixelType
          (mcuColor false 16 16 sMCUs (8 * br + 2 * k + dr) (8 * bc + 2 * i + dc))) := by
  rw [mem_quad]
  refine exists_congr fun dr => exists_congr fun dc => and_congr_right fun hdr =>
    and_congr_right fun hdc => and_congr_right fun _ => ?_
  -- the address is that of the pixel's row and column
  have haddr : pOutput + dr * iPitch + (2 * i + dc) =
      x + (8 * br + 2 * k + dr) * iPitch + (8 * bc + 2 * i + dc) := by
    rw [hOut, Nat.add_assoc (8 * br), Nat.add_mul, pair_row, Nat.mul_comm 8 br, Nat.mul_assoc,
      Nat.mul_comm 8 iPitch]
    omega
  rw [haddr, sourceColor_eq (w := 16) (h := 16) (r := 8 * br + 2 * k + dr)
    (c := 8 * bc + 2 * i + dc) (by omega) (by omega) rfl rfl]

/-- The four blocks share the chroma blocks. -/
theorem mem_putMCU22 {iWidth n₁ n₂ : Nat} {odd₁ odd₂ : Bool} {a : Nat × UInt16}
    (hcols : mcu22Columns iWidth x = ((n₁, odd₁), (n₂, odd₂))) (hn : n₁ ≤ 4) :
    a ∈ jpegPutMCU22 ucPixelType sMCUs iWidth x iPitch ↔
      ∃ k i br bc dr dc, k < 4 ∧ i < n₁ ∧ br < 2 ∧ bc < 2 ∧ dr < 2 ∧ dc < 2 ∧
        (bc = 0 ∧ (dc = 1 → odd₁ = true ∨ i + 1 ≠ n₁) ∨
          bc = 1 ∧ i < n₂ ∧ (dc = 1 → odd₂ = true ∨ i + 1 ≠ n₂)) ∧
        a = (x + (8 * br + 2 * k + dr) * iPitch + (8 * bc + 2 * i + dc), ordered ucPixelType
          (mcuColor false 16 16 sMCUs (8 * br + 2 * k + dr) (8 * bc + 2 * i + dc))) := by
  rw [jpegPutMCU22, hcols]
  simp only [List.mem_flatMap, List.mem_range, List.mem_append]
  have hquad := @mem_quad22 ucPixelType sMCUs x iPitch
  constructor
  · intro ⟨k, hk, i, hi, h⟩
    -- the four blocks of luminance
    rcases h with ((h | h) | h) | h
    · obtain ⟨dr, dc, hdr, hdc, hodd, ha⟩ := (hquad 0 0 hk (by omega) (by simp)
        (by simp) (by simp)).mp h
      exact ⟨k, i, 0, 0, dr, dc, hk, hi, by decide, by decide, hdr, hdc, .inl ⟨rfl, hodd⟩, ha⟩
    · split at h
      · rename_i hi₂
        obtain ⟨dr, dc, hdr, hdc, hodd, ha⟩ := (hquad 0 1 hk (by omega) (by simp)
          (by simp) (by simp)).mp h
        exact ⟨k, i, 0, 1, dr, dc, hk, hi, by decide, by decide, hdr, hdc,
          .inr ⟨rfl, hi₂, hodd⟩, ha⟩
      · simp at h
    · obtain ⟨dr, dc, hdr, hdc, hodd, ha⟩ := (hquad 1 0 hk (by omega) (by simp)
        (by simp) (by simp)).mp h
      exact ⟨k, i, 1, 0, dr, dc, hk, hi, by decide, by decide, hdr, hdc, .inl ⟨rfl, hodd⟩, ha⟩
    · split at h
      · rename_i hi₂
        obtain ⟨dr, dc, hdr, hdc, hodd, ha⟩ := (hquad 1 1 hk (by omega) (by simp)
          (by simp) (by simp)).mp h
        exact ⟨k, i, 1, 1, dr, dc, hk, hi, by decide, by decide, hdr, hdc,
          .inr ⟨rfl, hi₂, hodd⟩, ha⟩
      · simp at h
  · intro ⟨k, i, br, bc, dr, dc, hk, hi, hbr, hbc, hdr, hdc, h, ha⟩
    refine ⟨k, hk, i, hi, ?_⟩
    rcases (show br = 0 ∨ br = 1 by omega) with rfl | rfl <;>
      rcases h with ⟨rfl, hodd⟩ | ⟨rfl, hi₂, hodd⟩
    · exact .inl (.inl (.inl ((hquad 0 0 hk (by omega) (by simp) (by simp)
        (by simp)).mpr ⟨dr, dc, hdr, hdc, hodd, ha⟩)))
    · refine .inl (.inl (.inr ?_))
      rw [if_pos hi₂]
      exact (hquad 0 1 hk (by omega) (by simp) (by simp) (by simp)).mpr
        ⟨dr, dc, hdr, hdc, hodd, ha⟩
    · exact .inl (.inr ((hquad 1 0 hk (by omega) (by simp) (by simp)
        (by simp)).mpr ⟨dr, dc, hdr, hdc, hodd, ha⟩))
    · refine .inr ?_
      rw [if_pos hi₂]
      exact (hquad 1 1 hk (by omega) (by simp) (by simp) (by simp)).mpr
        ⟨dr, dc, hdr, hdc, hodd, ha⟩

/-- At the right edge of the picture only the visible columns have to be put. -/
theorem putsMcu_22 (iWidth : Nat) :
    PutsMcu false 16 16 ucPixelType sMCUs x iPitch (fun c => iWidth ≤ x + 15 → c < iWidth % 16)
      (jpegPutMCU22 ucPixelType sMCUs iWidth x iPitch) := by
  rcases hcols₀ : mcu22Columns iWidth x with ⟨⟨n₁, odd₁⟩, n₂, odd₂⟩
  have hcols := hcols₀
  have h15 : iWidth &&& 15 = iWidth % 16 := Nat.and_two_pow_sub_one_eq_mod iWidth 4
  have h1 : iWidth &&& 1 = iWidth % 2 := Nat.and_two_pow_sub_one_eq_mod iWidth 1
  simp only [mcu22Columns, h15, h1, Nat.shiftRight_eq_div_pow] at hcols
  -- a visible column is among the pairs that are converted
  have hpairs : n₁ ≤ 4 ∧ ∀ c < 16, (iWidth ≤ x + 15 → c < iWidth % 16) →
      c % 8 / 2 < n₁ ∧ (c / 8 = 0 ∧ (c % 2 = 1 → odd₁ = true ∨ c % 8 / 2 + 1 ≠ n₁) ∨
        c / 8 = 1 ∧ c % 8 / 2 < n₂ ∧ (c % 2 = 1 → odd₂ = true ∨ c % 8 / 2 + 1 ≠ n₂)) := by
    split at hcols
    · rename_i hedge
      split at hcols
      · cases hcols
        refine ⟨by decide, fun c hc hvis => ?_⟩
        have hvis := hvis hedge
        simp only [decide_eq_true_eq, true_or, implies_true, and_true]
        omega
      · cases hcols
        refine ⟨by omega, fun c hc hvis => ?_⟩
        have hvis := hvis hedge
        simp only [decide_eq_true_eq, true_or, implies_true, and_true]
        omega
    · cases hcols
      refine ⟨by decide, fun c hc _ => ?_⟩
      simp only [true_or, implies_true, and_true]
      omega
  refine ⟨fun a ha => ?_, fun r c hr hc hvis => ?_⟩
  · -- whatever is written lies in the MCU
    obtain ⟨k, i, br, bc, dr, dc, hk, hi, hbr, hbc, hdr, hdc, -, rfl⟩ :=
      (mem_putMCU22 _ _ _ _ hcols₀ hpairs.1).mp ha
    exact ⟨8 * br + 2 * k + dr, 8 * bc + 2 * i + dc, by omega, by omega, rfl⟩
  · refine (mem_putMCU22 _ _ _ _ hcols₀ hpairs.1).mpr ⟨r % 8 / 2, c % 8 / 2, r / 8, c / 8,
      r % 2, c % 2, by omega, (hpairs.2 c hc hvis).1, by omega, by omega, by omega, by omega,
      (hpairs.2 c hc hvis).2, ?_⟩
    rw [show 8 * (r / 8) + 2 * (r % 8 / 2) + r % 2 = r by omega,
      show 8 * (c / 8) + 2 * (c % 8 / 2) + c % 2 = c by omega]

end

end Ivy.Spec
