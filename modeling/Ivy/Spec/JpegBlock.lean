import Ivy.Spec.HuffmanLookup
import Ivy.Spec.JpegBits
import Mathlib.Data.Nat.Size

/-!
# A block is decoded as it was coded

The coder of the standard: the DC coefficient is coded as the difference to the block before, the AC
coefficients as runs of zeros with the coefficient behind them. `JPEGDecodeMCU` reads back the
coefficients, at any bit position, whether the bits behind a code come out of the table or out of
the data.
-/

namespace Ivy.Spec

open Ivy.Native Ivy.Canonical Ivy.Bits

/-! ## The values of extra bits -/

/-- How many bits a coefficient needs. -/
def category (v : Int) : Nat := v.natAbs.size

/-- The bits of a coefficient: those of a negative one are inverted. -/
def magnitude (v : Int) : Nat := if v < 0 then (v + (2 ^ category v - 1)).toNat else v.toNat

/-- Only zero needs no bits. -/
theorem category_eq_zero_iff {v : Int} : category v = 0 ↔ v = 0 := by
  rw [category, Nat.size_eq_zero, Int.natAbs_eq_zero]

/-- The category is the number of bits, -/
theorem natAbs_lt_category (v : Int) : v.natAbs < 2 ^ category v := Nat.lt_size_self _

/-- and no more than that. -/
theorem category_le_natAbs {v : Int} (hv : v ≠ 0) : 2 ^ (category v - 1) ≤ v.natAbs := by
  have hpos : category v ≠ 0 := mt category_eq_zero_iff.mp hv
  apply Nat.lt_size.mp
  show category v - 1 < category v
  omega

/-- The extra bits are as many as the category says. -/
theorem magnitude_lt (v : Int) : magnitude v < 2 ^ category v := by
  have habs := natAbs_lt_category v
  have hcast : ((2 ^ category v : Nat) : Int) = 2 ^ category v := Int.natCast_pow 2 _
  rw [magnitude, ← hcast]
  split <;> omega

/-- The decoder extends the bits to the coefficient. -/
theorem extend_magnitude {v : Int} (hv : v ≠ 0) : extend (category v) (magnitude v) = v := by
  have habs := natAbs_lt_category v
  have hge := category_le_natAbs hv
  have hpos : category v ≠ 0 := mt category_eq_zero_iff.mp hv
  have hhalf : 2 ^ category v = 2 * 2 ^ (category v - 1) := by
    rw [← Nat.pow_succ', show (category v - 1).succ = category v by omega]
  have hcast : ((2 ^ category v : Nat) : Int) = 2 ^ category v := Int.natCast_pow 2 _
  rw [extend, magnitude, ← hcast]
  split <;> split <;> omega

/-! ## The coder -/

/-- The code of a symbol and, behind it, the bits of the coefficient. A coefficient has at most 15
    of them, and there may be no code for the symbol. -/
def symbolBits (codes : List (Codeword UInt8)) (sym : UInt8) (v : Int) : Option (List Bool) :=
  if category v ≤ 15 then
    (codes.find? (·.sym = sym)).map fun c =>
      Bits.ofNat c.code c.len ++ Bits.ofNat (magnitude v) (category v)
  else none

/-- The runs of a block, from a coefficient on in front of which there are `r` zeros: the number of
    zeros and the coefficient behind them. 16 zeros are coded as 15 zeros and another zero, and the
    zeros at the end as an empty run. -/
def acRuns : Nat → List Int → List (Nat × Int)
  | r, [] => if r = 0 then [] else [(0, 0)]
  | r, v :: vs =>
    if v = 0 then acRuns (r + 1) vs
    else List.replicate (r / 16) (15, 0) ++ (r % 16, v) :: acRuns 0 vs

/-- `RRRR/SSSS` -/
def runSymbol (x : Nat × Int) : UInt8 := UInt8.ofNat (16 * x.1 + category x.2)

def encodeRuns (codes : List (Codeword UInt8)) : List (Nat × Int) → Option (List Bool)
  | [] => some []
  | x :: xs =>
    (symbolBits codes (runSymbol x) x.2).bind fun bits =>
      (encodeRuns codes xs).map fun rest => bits ++ rest

/-- A block with the difference `diff` and the AC coefficients `acs` in zigzag order. -/
def encodeBlock (dcCodes acCodes : List (Codeword UInt8)) (diff : Int) (acs : List Int) :
    Option (List Bool) :=
  (symbolBits dcCodes (UInt8.ofNat (category diff)) diff).bind fun dc =>
    (encodeRuns acCodes (acRuns 0 acs)).map fun ac => dc ++ ac

/-- What a symbol is coded as. -/
theorem symbolBits_eq_some {codes : List (Codeword UInt8)} {sym : UInt8} {v : Int}
    {bits : List Bool} (h : symbolBits codes sym v = some bits) :
    category v ≤ 15 ∧ ∃ c ∈ codes, c.sym = sym ∧
      bits = Bits.ofNat c.code c.len ++ Bits.ofNat (magnitude v) (category v) := by
  rw [symbolBits] at h
  split at h
  · rename_i hcat
    obtain ⟨c, hc, rfl⟩ := Option.map_eq_some_iff.mp h
    exact ⟨hcat, c, List.mem_of_find?_eq_some hc, by simpa using List.find?_some hc, rfl⟩
  · cases h

/-- The first run, and the others. -/
theorem encodeRuns_cons_eq_some {codes : List (Codeword UInt8)} {x : Nat × Int}
    {xs : List (Nat × Int)} {bits : List Bool} (h : encodeRuns codes (x :: xs) = some bits) :
    ∃ bits₁ bits₂, symbolBits codes (runSymbol x) x.2 = some bits₁ ∧
      encodeRuns codes xs = some bits₂ ∧ bits = bits₁ ++ bits₂ := by
  obtain ⟨bits₁, h₁, h⟩ := Option.bind_eq_some_iff.mp h
  obtain ⟨bits₂, h₂, rfl⟩ := Option.map_eq_some_iff.mp h
  exact ⟨bits₁, bits₂, h₁, h₂, rfl⟩

/-! ## The decoder's tables -/

/-- The decoder has the tables that were made of `h` and zeros, and uses DC table 0 or 1 and AC
    table 0 or 1. -/
structure Ready (t : McuTables) (h : HuffTables) : Prop where
  expanded : Expanded false h
  zero : ∀ a, h.ucHuffDC a = 0
  dc : t.ucHuffDC = (h.jpegMakeHuffTables false).1.ucHuffDC
  ac : t.usHuffAC = (h.jpegMakeHuffTables false).1.usHuffAC
  dcTable : t.ucDCTable.toNat < 2
  acTable : t.ucACTable.toNat < 2
  dcUsed : h.used t.ucDCTable.toNat = true
  acUsed : h.used (t.ucACTable.toNat + 4) = true
  b11Bit : t.b11Bit = false

/-- The codes of the DC table. -/
def dcCodes (t : McuTables) (h : HuffTables) : List (Codeword UInt8) :=
  tableCodes h.pHuffVals t.ucDCTable.toNat

/-- The codes of the AC table. -/
def acCodes (t : McuTables) (h : HuffTables) : List (Codeword UInt8) :=
  tableCodes h.pHuffVals (t.ucACTable.toNat + 4)

/-- The window at a code begins with the code. -/
theorem begins_of_holds {m : Nat → UInt8} {p W : Nat} {c : Codeword UInt8} (hlen : c.len ≤ W)
    (hcode : c.code < 2 ^ c.len) (h : Holds m p (Bits.ofNat c.code c.len)) :
    c.Begins W (field m p W) := by
  have hsplit := field_div m p c.len (W - c.len)
  rw [Nat.add_sub_cancel' hlen, field_of_holds h, Nat.mod_eq_of_lt hcode] at hsplit
  exact hsplit

/-! ## The entries -/

/-- An AC entry is the length and the symbol of its code. -/
theorem acEntry_toNat {c : Codeword UInt8} (hlen : c.len ≤ 16) :
    (acEntry false c).toUInt32.toNat = c.len * 2 ^ 8 + c.sym.toNat := by
  have hsym := c.sym.toNat_lt
  have hentry : acEntry false c = c.sym.toUInt16 ||| UInt16.ofNat (c.len <<< 8) := rfl
  rw [hentry, UInt16.toNat_toUInt32, UInt16.toNat_or, UInt8.toNat_toUInt16, UInt16.toNat_ofNat',
    Nat.shiftLeft_eq, Nat.mod_eq_of_lt (by omega), Nat.or_comm, ← Nat.shiftLeft_eq,
    ← Nat.shiftLeft_add_eq_or_of_lt hsym]

/-- A DC entry is the length and the symbol of its code, the length with the extra bits where the
    coefficient is in the table. -/
theorem dcEntry_toNat (ucMode : UInt8) {c : Codeword UInt8} (hlen : c.len ≤ 12)
    (hsym : c.sym.toNat < 16) :
    (dcEntry ucMode c).toNat =
      (if precalculated ucMode c then c.len + c.sym.toNat else c.len) * 2 ^ 4 + c.sym.toNat := by
  -- the nibbles do not overlap
  have hor : ∀ n ≤ 12, (c.sym ||| UInt8.ofNat (n <<< 4)).toNat = n * 2 ^ 4 + c.sym.toNat := by
    intro n hn
    rw [UInt8.toNat_or, UInt8.toNat_ofNat', Nat.shiftLeft_eq, Nat.mod_eq_of_lt (by omega),
      Nat.or_comm, ← Nat.shiftLeft_eq, ← Nat.shiftLeft_add_eq_or_of_lt hsym]
  rw [dcEntry]
  split
  · rename_i hpre
    simp only [precalculated, decide_eq_true_eq] at hpre
    rw [hor _ (by omega)]
  · rw [hor _ hlen]

/-- The differences that are calculated in advance. -/
theorem dcCoeff_eq {n j : Nat} (hlow : 1 ≤ n) (hn : n ≤ 5) (hj : j < 2 ^ n) :
    (dcCoeff n j).toInt8 ≠ 0 ∧ (dcCoeff n j).toInt8.toInt32 = Int32.ofInt (extend n j) := by
  have hall : ∀ n < 6, 1 ≤ n → ∀ j < 2 ^ n, (dcCoeff n j).toInt8 ≠ 0 ∧
      (dcCoeff n j).toInt8.toInt32 = Int32.ofInt (extend n j) := by decide +kernel
  exact hall n (by omega) hlow j hj

/-- The extra bits give the value back. -/
theorem extra_encoded {buf : Nat → UInt8} {bb : BufferedBits} {E : Nat} {v : Int} {n : UInt32}
    (hv : v ≠ 0) (hcat : category v ≤ 15) (hn : n.toNat = category v)
    (hoff : bb.ulBitOff.toNat ≤ 15) (hfresh : Fresh buf bb E) (hE : bitPos bb + category v ≤ E)
    (hbits : Holds buf (bitPos bb) (Bits.ofNat (magnitude v) (category v))) :
    (bb.extra n).toInt32 = Int32.ofInt v := by
  have hpos : category v ≠ 0 := mt category_eq_zero_iff.mp hv
  have hfield := field_of_holds (hfresh.holds (by rwa [length_ofNat]) hbits)
  rw [Nat.mod_eq_of_lt (magnitude_lt v)] at hfield
  rw [extra_eq buf hoff (by omega) (by omega), hn, hfield, extend_magnitude hv]

/-- Put the coefficients from zigzag index `k` on into the block, up to `pEnd2`. -/
def putAll (iMCU pEnd2 : Nat) : Nat → List Int → AcLoop → AcLoop
  | _, [], s => s
  | k, v :: vs, s =>
    putAll iMCU pEnd2 (k + 1) vs
      (if k < pEnd2 ∧ v ≠ 0 then s.put iMCU (unzigzag k) (Int16.ofInt v) else s)

/-- Storing coefficients does not look at the bits. -/
theorem putAll_bb (iMCU pEnd2 k : Nat) (vs : List Int) (s : AcLoop) (bb : BufferedBits) :
    putAll iMCU pEnd2 k vs { s with bb } = { putAll iMCU pEnd2 k vs s with bb } := by
  induction vs generalizing k s with
  | nil => rfl
  | cons v vs ih =>
    rw [putAll, putAll, ← ih]
    congr 1
    split <;> rfl

/-! ## The DC coefficient -/

section

variable {t : McuTables} {h : HuffTables} (hr : Ready t h) {buf : Nat → UInt8} {E : Nat}

include hr

/-- What the lookup of a DC code finds. -/
theorem dc_lookup {bb : BufferedBits} {c : Codeword UInt8} {p : Nat}
    (hp : p = t.ucDCTable.toNat * dcTableSize + (dcIndex (bb.peek 12)).toNat)
    (hoff : bb.ulBitOff.toNat ≤ 15) (hc : c ∈ dcCodes t h) (hsym : c.sym.toNat < 16)
    (hcode : Holds (seen buf bb) (bitPos bb) (Bits.ofNat c.code c.len)) :
    (1 ≤ c.len ∧ c.len ≤ 12) ∧ t.ucHuffDC p ≠ 0 ∧ t.ucHuffDC p &&& 0xf = c.sym ∧
      (t.ucHuffDC p >>> 4).toUInt32.toNat =
        (if precalculated h.ucMode c then c.len + c.sym.toNat else c.len) ∧
      t.ucHuffDC (p + 512) =
        if precalculated h.ucMode c then
          dcCoeff c.sym.toNat (field (seen buf bb) (bitPos bb + c.len) c.sym.toNat)
        else 0 := by
  have htable := hr.dcTable
  have hbounds := (hr.expanded.proper t.ucDCTable.toNat (by omega) hr.dcUsed).bounds hc
  have hmem : (t.ucDCTable.toNat, c) ∈ items h 0 4 0 := mem_items.mpr ⟨by omega, hr.dcUsed, hc⟩
  have hlen : c.len ≤ 12 := (hr.expanded.dcFits hmem).len_le
  have hpeek : (bb.peek 12).toNat = field (seen buf bb) (bitPos bb) 12 :=
    peek_toNat hoff (by decide) (by decide)
  have hwindow : (bb.peek 12).toNat < 2 ^ 12 := by
    rw [hpeek]
    exact field_lt _ _ _
  -- the next twelve bits begin with the code
  have hbegins : c.Begins 12 (bb.peek 12).toNat := by
    rw [hpeek]
    exact begins_of_holds hlen (by omega) hcode
  have hentry := hr.expanded.dc_code (by omega) hr.dcUsed hwindow hc hbegins
  have hcoeff := hr.expanded.dc_coeff (by omega) hr.dcUsed hwindow hc hbegins
  rw [← hr.dc, ← hp] at hentry hcoeff
  have hnat := dcEntry_toNat h.ucMode hlen hsym
  refine ⟨⟨hbounds.1.1, hlen⟩, ?_, ?_, ?_, ?_⟩
  · rw [hentry]
    exact dcEntry_ne_zero hbounds.1.1 hlen
  · apply UInt8.toNat_inj.mp
    rw [hentry, UInt8.toNat_and, hnat, show UInt8.toNat 0xf = 2 ^ 4 - 1 from rfl,
      Nat.and_two_pow_sub_one_eq_mod]
    omega
  · rw [hentry, UInt8.toNat_toUInt32, UInt8.toNat_shiftRight, hnat, Nat.shiftRight_eq_div_pow]
    simp only [UInt8.reduceToNat, Nat.reduceMod]
    omega
  · rw [hcoeff, hr.zero, hpeek]
    split
    · -- the extra bits are part of the window
      rename_i hpre
      simp only [precalculated, decide_eq_true_eq] at hpre
      have hsplit := field_div (seen buf bb) (bitPos bb) (c.len + c.sym.toNat)
        (12 - c.len - c.sym.toNat)
      rw [show c.len + c.sym.toNat + (12 - c.len - c.sym.toNat) = 12 by omega] at hsplit
      rw [hsplit, field_mod]
    · rfl

/-- The predictor goes on by the difference, however it is read. -/
theorem decodeDc_encoded {bb : BufferedBits} {diff : Int} {bits : List Bool} (pred : Int32)
    (hoff : bb.ulBitOff.toNat ≤ 15)
    (henc : symbolBits (dcCodes t h) (UInt8.ofNat (category diff)) diff = some bits)
    (hfresh : Fresh buf bb E) (hE : bitPos bb + bits.length ≤ E)
    (hbits : Holds buf (bitPos bb) bits) :
    ∃ bb', decodeDc t buf bb pred = some (bb', pred + Int32.ofInt diff) ∧ Fresh buf bb' E ∧
      bitPos bb' = bitPos bb + bits.length := by
  obtain ⟨hdiff, c, hc, hsym, rfl⟩ := symbolBits_eq_some henc
  have hsymNat : c.sym.toNat = category diff := by
    rw [hsym, UInt8.toNat_ofNat', Nat.mod_eq_of_lt (by omega)]
  obtain ⟨hcode, hextra⟩ := holds_append.mp (hfresh.holds hE hbits)
  obtain ⟨hlen, hne, hlow, hused, hcoeff⟩ :=
    dc_lookup hr (p := _) rfl hoff hc (by omega) hcode
  simp only [List.length_append, length_ofNat] at hE hextra ⊢
  have hfield := field_of_holds hextra
  rw [Nat.mod_eq_of_lt (magnitude_lt diff)] at hfield
  rw [decodeDc]
  dsimp only
  rw [if_neg hne, hlow, hcoeff]
  by_cases hzero : diff = 0
  · -- no change
    subst hzero
    have hpre : ¬ precalculated h.ucMode c = true := by simp [precalculated, hsym, category]
    rw [if_neg hpre] at hused
    rw [if_neg (by simp [hsym, category]), show Int32.ofInt 0 = 0 from rfl, Int32.add_zero]
    refine ⟨_, rfl, hfresh.skip hoff (by omega), ?_⟩
    rw [bitPos_skip hoff (by omega), hused]
    rfl
  · have hpos : 1 ≤ category diff := Nat.one_le_iff_ne_zero.mpr (mt category_eq_zero_iff.mp hzero)
    have hsym0 : c.sym ≠ 0 := by
      intro h0
      rw [h0] at hsymNat
      simp only [UInt8.toNat_zero] at hsymNat
      omega
    rw [if_pos hsym0]
    by_cases hpre : precalculated h.ucMode c = true
    · -- the extra bits are part of the lookup
      have hsmall : c.sym.toNat + c.len ≤ 6 := by
        simp only [precalculated, decide_eq_true_eq] at hpre
        exact hpre.2.1
      have hc5 := dcCoeff_eq hpos (by omega) (magnitude_lt diff)
      rw [extend_magnitude hzero] at hc5
      rw [if_pos hpre] at hused ⊢
      rw [hsymNat, hfield, if_pos hc5.1, hc5.2]
      refine ⟨_, rfl, hfresh.skip hoff (by omega), ?_⟩
      rw [bitPos_skip hoff (by omega), hused, hsymNat]
    · rw [if_neg hpre] at hused ⊢
      rw [if_neg (by decide)]
      -- the extra bits follow, after a refill
      have hsmall := Nat.le_trans (Nat.le_of_eq hused) (show c.len ≤ 16 by omega)
      have hfresh₁ := hfresh.skip hoff hsmall
      have hskip := bitPos_skip hoff hsmall
      rw [hused] at hskip
      generalize bb.skip _ = bb₁ at hskip hfresh₁ ⊢
      have hpos₂ := (bitPos_refill buf bb₁).trans hskip
      have hoff₂ := refill_off_le buf bb₁
      have hn : c.sym.toUInt32.toNat = category diff := by rw [UInt8.toNat_toUInt32, hsymNat]
      have hmag := (holds_append.mp hbits).2
      rw [length_ofNat, ← hpos₂] at hmag
      rw [extra_encoded hzero hdiff hn hoff₂ hfresh₁.refill (by omega) hmag]
      refine ⟨_, rfl, hfresh₁.refill.skip hoff₂ (by omega), ?_⟩
      rw [bitPos_skip hoff₂ (by omega), hpos₂, hn]
      omega

/-! ## The AC coefficients -/

/-- What the lookup of an AC code finds. -/
theorem ac_lookup {bb : BufferedBits} {c : Codeword UInt8} {usHuff : UInt32}
    (hu : usHuff = (t.usHuffAC (t.ucACTable.toNat * huff11Size +
      (acIndex (bb.peek 16)).toNat)).toUInt32)
    (hoff : bb.ulBitOff.toNat ≤ 15) (hc : c ∈ acCodes t h)
    (hcode : Holds (seen buf bb) (bitPos bb) (Bits.ofNat c.code c.len)) :
    (1 ≤ c.len ∧ c.len ≤ 16) ∧ usHuff ≠ 0 ∧ (usHuff >>> 8).toNat = c.len ∧
      usHuff &&& 0xff = c.sym.toUInt32 := by
  have htable := hr.acTable
  have hbounds := (hr.expanded.proper (t.ucACTable.toNat + 4) (by omega) hr.acUsed).bounds hc
  have hpeek : (bb.peek 16).toNat = field (seen buf bb) (bitPos bb) 16 :=
    peek_toNat hoff (by decide) (by decide)
  have hwindow : (bb.peek 16).toNat < 2 ^ 16 := by
    rw [hpeek]
    exact field_lt _ _ _
  -- the next sixteen bits begin with the code
  have hbegins : c.Begins 16 (bb.peek 16).toNat := by
    rw [hpeek]
    exact begins_of_holds hbounds.1.2 (by omega) hcode
  rw [hr.ac, hr.expanded.ac_code (by omega) hr.acUsed hwindow hc hbegins] at hu
  have hnat := acEntry_toNat hbounds.1.2
  have hsym := c.sym.toNat_lt
  rw [← hu] at hnat
  refine ⟨hbounds.1, ?_, ?_, ?_⟩
  · rintro rfl
    simp only [UInt32.toNat_zero] at hnat
    omega
  · rw [UInt32.toNat_shiftRight, hnat, Nat.shiftRight_eq_div_pow]
    simp only [UInt32.reduceToNat, Nat.reduceMod]
    omega
  · apply UInt32.toNat_inj.mp
    rw [UInt32.toNat_and, hnat, show UInt32.toNat 0xff = 2 ^ 8 - 1 from rfl,
      Nat.and_two_pow_sub_one_eq_mod, UInt8.toNat_toUInt32]
    omega

variable (iMCU pEnd2 : Nat) {n k : Nat} {s : AcLoop}

/-- The loop, with the table that is used. -/
def acRounds (t : McuTables) (buf : Nat → UInt8) (iMCU pEnd2 : Nat) :
    Nat → Nat → AcLoop → AcLoop × Bool :=
  acLoop acIndex (fun i => t.usHuffAC (t.ucACTable.toNat * huff11Size + i)) buf iMCU pEnd2

/-- The code for the end of the block. -/
theorem acLoop_end {bits : List Bool} (hk : k < 64)
    (henc : symbolBits (acCodes t h) (runSymbol (0, 0)) 0 = some bits)
    (hfresh : Fresh buf s.bb E) (hE : bitPos s.bb + bits.length ≤ E)
    (hbits : Holds buf (bitPos s.bb) bits) :
    ∃ bb', Fresh buf bb' E ∧ bitPos bb' = bitPos s.bb + bits.length ∧
      acRounds t buf iMCU pEnd2 (n + 1) k s = ({ s with bb := bb' }, true) := by
  obtain ⟨-, c, hc, hsym, rfl⟩ := symbolBits_eq_some henc
  have hoff := refill_off_le buf s.bb
  have hpos := bitPos_refill buf s.bb
  obtain ⟨hcode, -⟩ := holds_append.mp (hfresh.refill.holds hE hbits)
  rw [← hpos] at hcode
  obtain ⟨hlen, hne, hused, hlow⟩ := ac_lookup hr rfl hoff hc hcode
  rw [acRounds, acLoop, if_pos hk]
  dsimp only
  -- the symbol 0 ends the block
  rw [if_neg hne, hlow, hsym, if_pos (by decide)]
  refine ⟨_, hfresh.refill.skip hoff (by omega), ?_, rfl⟩
  rw [bitPos_skip hoff (by omega), hpos, hused, List.length_append, length_ofNat]
  rfl

/-- One run and the coefficient behind it. -/
theorem acLoop_run {r : Nat} {v : Int} {bits : List Bool} (hk : k < 64) (hr15 : r ≤ 15)
    (hne : r ≠ 0 ∨ v ≠ 0)
    (henc : symbolBits (acCodes t h) (runSymbol (r, v)) v = some bits)
    (hfresh : Fresh buf s.bb E) (hE : bitPos s.bb + bits.length ≤ E)
    (hbits : Holds buf (bitPos s.bb) bits) :
    ∃ bb', Fresh buf bb' E ∧ bitPos bb' = bitPos s.bb + bits.length ∧
      acRounds t buf iMCU pEnd2 (n + 1) k s =
      acRounds t buf iMCU pEnd2 n (k + r + 1)
        { (if k + r < pEnd2 ∧ v ≠ 0 then s.put iMCU (unzigzag (k + r)) (Int16.ofInt v) else s) with
          bb := bb' } := by
  obtain ⟨hcat, c, hc, hsym, rfl⟩ := symbolBits_eq_some henc
  have hoff := refill_off_le buf s.bb
  have hpos := bitPos_refill buf s.bb
  obtain ⟨hcode, -⟩ := holds_append.mp (hfresh.refill.holds hE hbits)
  rw [← hpos] at hcode
  obtain ⟨hlen, hnz, hused, hlow⟩ := ac_lookup hr rfl hoff hc hcode
  have hmag := (holds_append.mp hbits).2
  simp only [List.length_append, length_ofNat] at hE hmag ⊢
  -- the symbol
  have hsymNat : c.sym.toNat = 16 * r + category v := by
    rw [hsym, show runSymbol (r, v) = UInt8.ofNat (16 * r + category v) from rfl,
      UInt8.toNat_ofNat', Nat.mod_eq_of_lt (by omega)]
  have hsym0 : c.sym.toUInt32 ≠ 0 := by
    intro h0
    have hzero := congrArg UInt32.toNat h0
    rw [UInt8.toNat_toUInt32, hsymNat, UInt32.toNat_zero] at hzero
    exact hne.elim (by omega) fun hv => hv (category_eq_zero_iff.mp (by omega))
  have hrun : (c.sym.toUInt32 >>> 4).toNat = r := by
    rw [UInt32.toNat_shiftRight, UInt8.toNat_toUInt32, hsymNat, Nat.shiftRight_eq_div_pow]
    simp only [UInt32.reduceToNat, Nat.reduceMod]
    omega
  have hsize : (c.sym.toUInt32 &&& 0xf).toNat = category v := by
    rw [UInt32.toNat_and, UInt8.toNat_toUInt32, hsymNat, show UInt32.toNat 0xf = 2 ^ 4 - 1 from rfl,
      Nat.and_two_pow_sub_one_eq_mod]
    omega
  rw [acRounds, acLoop, if_pos hk]
  dsimp only
  rw [if_neg hnz, hlow, if_neg hsym0, hrun]
  -- the coefficient
  have hsmall := Nat.le_trans (Nat.le_of_eq hused) hlen.2
  have hfresh₁ := hfresh.refill.skip hoff hsmall
  have hskip := bitPos_skip hoff hsmall
  rw [hused, hpos] at hskip
  generalize (s.bb.refill buf).skip _ = bb₁ at hskip hfresh₁ ⊢
  have hpos₂ := (bitPos_refill buf bb₁).trans hskip
  have hoff₂ := refill_off_le buf bb₁
  refine ⟨(bb₁.refill buf).skip (c.sym.toUInt32 &&& 0xf), hfresh₁.refill.skip hoff₂ (by omega),
    ?_, ?_⟩
  · rw [bitPos_skip hoff₂ (by omega), hpos₂, hsize]
    omega
  · have hsizeNe : c.sym.toUInt32 &&& 0xf ≠ 0 ↔ v ≠ 0 := by
      rw [Ne, ← UInt32.toNat_inj, hsize, UInt32.toNat_zero, category_eq_zero_iff]
    by_cases hv : v = 0
    · simp only [hsizeNe, hv, ne_eq, not_true_eq_false, and_false, if_false]
    · rw [← hpos₂] at hmag
      rw [extra_encoded hv hcat hsize hoff₂ hfresh₁.refill (by omega) hmag, Int32.toInt16_ofInt]
      simp only [hsizeNe]

/-- Runs of 16 zeros. -/
theorem acLoop_zeros {q : Nat} {xs : List (Nat × Int)} {bits : List Bool} (hk : k + 16 * q < 64)
    (henc : encodeRuns (acCodes t h) (List.replicate q (15, 0) ++ xs) = some bits)
    (hfresh : Fresh buf s.bb E) (hE : bitPos s.bb + bits.length ≤ E)
    (hbits : Holds buf (bitPos s.bb) bits) :
    ∃ bb' bits', encodeRuns (acCodes t h) xs = some bits' ∧ Fresh buf bb' E ∧
      Holds buf (bitPos bb') bits' ∧ bitPos bb' + bits'.length = bitPos s.bb + bits.length ∧
      acRounds t buf iMCU pEnd2 (n + q) k s =
      acRounds t buf iMCU pEnd2 n (k + 16 * q) { s with bb := bb' } := by
  induction q generalizing k s bits with
  | zero => exact ⟨s.bb, bits, henc, hfresh, hbits, rfl, rfl⟩
  | succ q ih =>
    rw [List.replicate_succ, List.cons_append] at henc
    obtain ⟨bits₁, bits₂, henc₁, henc₂, rfl⟩ := encodeRuns_cons_eq_some henc
    rw [List.length_append] at hE
    obtain ⟨hbits₁, hbits₂⟩ := holds_append.mp hbits
    -- a run of sixteen zeros stores nothing
    obtain ⟨bb₁, hfresh₁, hpos₁, hloop₁⟩ := acLoop_run hr iMCU pEnd2 (n := n + q)
      (by omega : k < 64) (by decide) (.inl (by decide)) henc₁ hfresh
      (by omega) hbits₁
    rw [← hpos₁] at hbits₂
    obtain ⟨bb', bits', henc', hfresh', hbits', hlen', hloop'⟩ :=
      ih (k := k + 15 + 1) (s := { s with bb := bb₁ }) (by omega) henc₂ hfresh₁
        (by simp only; omega) hbits₂
    refine ⟨bb', bits', henc', hfresh', hbits', ?_, ?_⟩
    · rw [hlen', List.length_append]
      simp only
      omega
    · rw [← Nat.add_assoc, hloop₁, if_neg (by simp), hloop',
        show k + 15 + 1 + 16 * q = k + 16 * (q + 1) by omega]

/-- The loop puts the coefficients into the block: by induction on the coefficients, with the zeros
    in front of them that have not been coded yet. -/
theorem acLoop_encoded {vs : List Int} {r : Nat} {bits : List Bool} (hk : k + r + vs.length = 64)
    (hn : r + vs.length ≤ n)
    (henc : encodeRuns (acCodes t h) (acRuns r vs) = some bits)
    (hfresh : Fresh buf s.bb E) (hE : bitPos s.bb + bits.length ≤ E)
    (hbits : Holds buf (bitPos s.bb) bits) :
    ∃ bb', Fresh buf bb' E ∧ bitPos bb' = bitPos s.bb + bits.length ∧
      acRounds t buf iMCU pEnd2 n k s =
        ({ putAll iMCU pEnd2 (k + r) vs s with bb := bb' }, true) := by
  induction vs generalizing r k n s bits with
  | nil =>
    rw [acRuns] at henc
    by_cases hr0 : r = 0
    · -- the last coefficient is not zero: there is no code for the end
      rw [if_pos hr0] at henc
      cases henc
      have hk64 : ¬ k < 64 := by
        simp only [List.length_nil] at hk
        omega
      refine ⟨s.bb, hfresh, rfl, ?_⟩
      cases n with
      | zero => rfl
      | succ n => rw [acRounds, acLoop, if_neg hk64]; rfl
    · rw [if_neg hr0] at henc
      obtain ⟨bits₁, bits₂, henc₁, henc₂, rfl⟩ := encodeRuns_cons_eq_some henc
      cases henc₂
      simp only [List.length_nil, List.append_nil] at hk hn hE hbits ⊢
      obtain ⟨m, rfl⟩ : ∃ m, n = m + 1 := ⟨n - 1, by omega⟩
      exact acLoop_end hr iMCU pEnd2 (by omega) henc₁ hfresh hE hbits
  | cons v vs ih =>
    rw [List.length_cons] at hk hn
    rw [acRuns] at henc
    by_cases hv : v = 0
    · -- a zero makes the run longer
      rw [if_pos hv] at henc
      rw [putAll, if_neg (fun h => h.2 hv)]
      exact ih (by omega) (by omega) henc hfresh hE hbits
    · rw [if_neg hv] at henc
      -- first the runs of 16 zeros, then the rest of the zeros with the coefficient
      obtain ⟨m, rfl⟩ : ∃ m, n = m + 1 + r / 16 := ⟨n - 1 - r / 16, by omega⟩
      obtain ⟨bb₁, bits₁, henc₁, hfresh₁, hbits₁, hlen₁, hloop₁⟩ :=
        acLoop_zeros hr iMCU pEnd2 (n := m + 1) (k := k) (by omega) henc hfresh hE hbits
      obtain ⟨bits₂, bits₃, henc₂, henc₃, rfl⟩ := encodeRuns_cons_eq_some henc₁
      rw [List.length_append] at hlen₁
      obtain ⟨hbits₂, hbits₃⟩ := holds_append.mp hbits₁
      obtain ⟨bb₂, hfresh₂, hpos₂, hloop₂⟩ := acLoop_run hr iMCU pEnd2 (n := m)
        (k := k + 16 * (r / 16)) (s := { s with bb := bb₁ }) (by omega) (by omega)
        (.inr hv) henc₂ hfresh₁ (by simp only; omega) hbits₂
      rw [← hpos₂] at hbits₃
      have hkr : k + 16 * (r / 16) + r % 16 = k + r := by omega
      -- the coefficient is stored whatever the bits are
      have hput : ({ (if k + r < pEnd2 ∧ v ≠ 0 then
            AcLoop.put { s with bb := bb₁ } iMCU (unzigzag (k + r)) (Int16.ofInt v)
          else { s with bb := bb₁ }) with bb := bb₂ } : AcLoop) =
          { (if k + r < pEnd2 ∧ v ≠ 0 then s.put iMCU (unzigzag (k + r)) (Int16.ofInt v)
            else s) with bb := bb₂ } := by split <;> rfl
      rw [hkr, hput] at hloop₂
      obtain ⟨bb', hfresh', hpos', hloop'⟩ := ih (r := 0) (k := k + r + 1) (n := m)
        (s := { (if k + r < pEnd2 ∧ v ≠ 0 then s.put iMCU (unzigzag (k + r)) (Int16.ofInt v)
            else s) with bb := bb₂ }) (by omega) (by omega) henc₃ hfresh₂
        (by simp only at hpos₂ ⊢; omega) hbits₃
      refine ⟨bb', hfresh', ?_, ?_⟩
      · simp only at hpos₂ hpos'
        omega
      · rw [hloop₁, hloop₂, hloop', putAll_bb, putAll]

end

/-! ## What is in the block afterwards -/

/-- The zigzag order stays in the block. -/
theorem unzigzag_lt {k : Nat} (hk : k < 64) : unzigzag k < 64 := by
  have hall : ∀ k < 64, unzigzag k < 64 := by decide
  exact hall k hk

/-- Different coefficients have different places. -/
theorem unzigzag_inj {j k : Nat} (hj : j < 64) (hk : k < 64) (h : unzigzag j = unzigzag k) :
    j = k := by
  have hall : ∀ j < 64, ∀ k < 64, unzigzag j = unzigzag k → j = k := by decide +kernel
  exact hall j hj k hk h

section

variable (iMCU pEnd2 : Nat)

/-- A coefficient is stored at its place. -/
theorem put_sMCUs (s : AcLoop) (z : Nat) (x : Int16) (a : Nat) :
    (s.put iMCU z x).sMCUs a = if a = iMCU + z then x else s.sMCUs a := by
  split
  · rename_i ha
    subst ha
    exact Mem.store_of_getElem? (i := 0) s.sMCUs rfl
  · rename_i ha
    rcases Nat.lt_or_gt_of_ne ha with hlt | hgt
    · exact Mem.store_of_lt _ _ hlt
    · exact Mem.store_of_ge _ _ hgt

/-- The other places are left. -/
theorem putAll_untouched {vs : List Int} {k a : Nat} (s : AcLoop)
    (ha : ∀ i < vs.length, a ≠ iMCU + unzigzag (k + i)) :
    (putAll iMCU pEnd2 k vs s).sMCUs a = s.sMCUs a := by
  induction vs generalizing k s with
  | nil => rfl
  | cons v vs ih =>
    -- the first coefficient, and the later ones
    have hfirst : a ≠ iMCU + unzigzag k := ha 0 (by simp)
    rw [putAll, ih]
    · split
      · rw [put_sMCUs, if_neg hfirst]
      · rfl
    · intro i hi
      have hnext := ha (i + 1) (by simpa using hi)
      rwa [show k + (i + 1) = k + 1 + i by omega] at hnext

/-- A coefficient of the list is in its place, if the place was cleared before. -/
theorem putAll_at {vs : List Int} {k i : Nat} {v : Int} (s : AcLoop) (hk : k + vs.length ≤ 64)
    (hv : vs[i]? = some v) (hend : k + i < pEnd2)
    (hclear : s.sMCUs (iMCU + unzigzag (k + i)) = 0) :
    (putAll iMCU pEnd2 k vs s).sMCUs (iMCU + unzigzag (k + i)) = Int16.ofInt v := by
  induction vs generalizing k i s with
  | nil => simp at hv
  | cons w vs ih =>
    rw [List.length_cons] at hk
    rw [putAll]
    cases i with
    | zero =>
      simp only [List.getElem?_cons_zero, Option.some.injEq] at hv
      subst hv
      simp only [Nat.add_zero] at hend hclear ⊢
      -- no later coefficient has the same place
      rw [putAll_untouched]
      · by_cases hw : w = 0
        · rw [if_neg (fun h => h.2 hw), hclear, hw]
          rfl
        · rw [if_pos ⟨hend, hw⟩, put_sMCUs, if_pos rfl]
      · intro i hi heq
        have := unzigzag_inj (j := k) (k := k + 1 + i) (by omega) (by omega) (by omega)
        omega
    | succ i =>
      rw [List.getElem?_cons_succ] at hv
      have hi : i < vs.length := (List.getElem?_eq_some_iff.mp hv).1
      rw [show k + (i + 1) = k + 1 + i by omega] at hend hclear ⊢
      refine ih _ (by omega) hv hend ?_
      split
      · rw [put_sMCUs, if_neg, hclear]
        intro heq
        have := unzigzag_inj (j := k + 1 + i) (k := k) (by omega) (by omega) (by omega)
        omega
      · exact hclear

/-- A flag that is set when a coefficient is put in certain places. -/
theorem putAll_flag {g : AcLoop → Prop} {Q : Nat → Prop}
    (hput : ∀ s z x, g (s.put iMCU z x) ↔ g s ∨ Q z) {vs : List Int} {k : Nat} (s : AcLoop) :
    g (putAll iMCU pEnd2 k vs s) ↔ g s ∨ ∃ i v, vs[i]? = some v ∧ v ≠ 0 ∧ k + i < pEnd2 ∧
      Q (unzigzag (k + i)) := by
  induction vs generalizing k s with
  | nil => simp [putAll]
  | cons w vs ih =>
    rw [putAll, ih]
    -- the first coefficient, or a later one
    have hsplit : (∃ i v, (w :: vs)[i]? = some v ∧ v ≠ 0 ∧ k + i < pEnd2 ∧ Q (unzigzag (k + i))) ↔
        (w ≠ 0 ∧ k < pEnd2 ∧ Q (unzigzag k)) ∨
          ∃ i v, vs[i]? = some v ∧ v ≠ 0 ∧ k + 1 + i < pEnd2 ∧ Q (unzigzag (k + 1 + i)) := by
      constructor
      · intro ⟨i, v, hv, h⟩
        cases i with
        | zero => exact .inl (by simp_all)
        | succ i => exact .inr ⟨i, v, by simpa using hv, by rwa [Nat.add_assoc, Nat.add_comm 1]⟩
      · intro h
        rcases h with h | ⟨i, v, hv, h⟩
        · exact ⟨0, w, rfl, h⟩
        · exact ⟨i + 1, v, by simpa using hv, by rwa [Nat.add_comm i, ← Nat.add_assoc]⟩
    rw [hsplit, ← or_assoc]
    refine or_congr_left ?_
    by_cases hw : k < pEnd2 ∧ w ≠ 0
    · rw [if_pos hw, hput]
      simp [hw.1, hw.2]
    · rw [if_neg hw]
      exact ⟨.inl, fun h => h.elim id fun h => absurd ⟨h.2.1, h.1⟩ hw⟩

/-- A coefficient sets the flag of its column. -/
theorem testBit_flag (f : UInt8) (z c : Nat) :
    (f ||| UInt8.ofNat (1 <<< (z &&& 7))).toNat.testBit c = true ↔
      f.toNat.testBit c = true ∨ z % 8 = c := by
  have hz : z % 8 < 8 := Nat.mod_lt _ (by decide)
  rw [show (7 : Nat) = 2 ^ 3 - 1 from rfl, Nat.and_two_pow_sub_one_eq_mod, Nat.one_shiftLeft,
    UInt8.toNat_or, Nat.testBit_or, UInt8.toNat_ofNat', Nat.mod_eq_of_lt, Nat.testBit_two_pow]
  · simp
  · exact Nat.pow_lt_pow_right (by decide) hz

/-- The occupied columns. -/
theorem putAll_col {vs : List Int} {k : Nat} (s : AcLoop) (c : Nat) :
    (putAll iMCU pEnd2 k vs s).ucMaxACCol.toNat.testBit c = true ↔
      s.ucMaxACCol.toNat.testBit c = true ∨
        ∃ i v, vs[i]? = some v ∧ v ≠ 0 ∧ k + i < pEnd2 ∧ unzigzag (k + i) % 8 = c :=
  putAll_flag iMCU pEnd2 (g := fun s => s.ucMaxACCol.toNat.testBit c = true)
    (fun _ _ _ => testBit_flag _ _ _) s

/-- The columns that are occupied below the fourth row. -/
theorem putAll_row {vs : List Int} {k : Nat} (s : AcLoop) (c : Nat) :
    (putAll iMCU pEnd2 k vs s).ucMaxACRow.toNat.testBit c = true ↔
      s.ucMaxACRow.toNat.testBit c = true ∨
        ∃ i v, vs[i]? = some v ∧ v ≠ 0 ∧ k + i < pEnd2 ∧
          32 ≤ unzigzag (k + i) ∧ unzigzag (k + i) % 8 = c := by
  refine putAll_flag iMCU pEnd2 (g := fun s => s.ucMaxACRow.toNat.testBit c = true)
    (Q := fun z => 32 ≤ z ∧ z % 8 = c) (fun s z x => ?_) s
  rw [AcLoop.put]
  dsimp only
  split
  · rename_i hz
    rw [testBit_flag]
    exact or_congr_right (iff_and_self.mpr fun _ => hz)
  · rename_i hz
    exact ⟨.inl, fun h => h.elim id fun h => absurd h.1 hz⟩

end

/-! ## The whole block -/

section

variable {t : McuTables} {h : HuffTables} {s : McuState} {iMCU E : Nat} {pred diff : Int}
  {acs : List Int} {bits : List Bool}

/-- The coefficients are in their places, in zigzag order. The flags say in which columns there are
    AC coefficients, and in which of them below the fourth row. -/
structure HoldsBlock (iMCU : Nat) (coefs : List Int) (sMCUs : Nat → Int16)
    (ucMaxACCol ucMaxACRow : UInt8) : Prop where
  coef : ∀ k v, coefs[k]? = some v → sMCUs (iMCU + unzigzag k) = Int16.ofInt v
  col : ∀ c, ucMaxACCol.toNat.testBit c = true ↔
    ∃ k v, 0 < k ∧ coefs[k]? = some v ∧ v ≠ 0 ∧ unzigzag k % 8 = c
  row : ∀ c, ucMaxACRow.toNat.testBit c = true ↔
    ∃ k v, 0 < k ∧ coefs[k]? = some v ∧ v ≠ 0 ∧ 32 ≤ unzigzag k ∧ unzigzag k % 8 = c

/-- `JPEGDecodeMCU` has read the block, and is behind it. -/
structure BlockDecoded (iMCU E : Nat) (s : McuState) (coefs : List Int) (len : Nat)
    (s' : McuState) : Prop where
  vlc : s'.vlc = { s.vlc with bb := s'.vlc.bb, iVLCOff := s'.vlc.bb.pBuf }
  fresh : Fresh s.vlc.ucFileBuf s'.vlc.bb E
  pos : bitPos s'.vlc.bb = bitPos s.vlc.bb + len
  holds : HoldsBlock iMCU coefs s'.sMCUs s'.ucMaxACCol s'.ucMaxACRow
  frame : ∀ a, a < iMCU ∨ iMCU + 64 ≤ a → s'.sMCUs a = s.sMCUs a

/-- A block before its AC coefficients are put: cleared, with the DC coefficient `x`. -/
def startBlock (iMCU : Nat) (sMCUs : Nat → Int16) (x : Int16) : Nat → Int16 :=
  Mem.store (clearBlock false iMCU sMCUs) iMCU [x]

/-- Clearing a block leaves the others. -/
theorem startBlock_frame {sMCUs : Nat → Int16} {x : Int16} {a : Nat}
    (ha : a < iMCU ∨ iMCU + 64 ≤ a) : startBlock iMCU sMCUs x a = sMCUs a := by
  rw [startBlock, clearBlock, if_neg (by decide)]
  rcases ha with ha | ha
  · rw [Mem.store_of_lt _ _ ha, Mem.store_of_lt _ _ ha]
  · rw [Mem.store_of_ge _ _ (by simp only [List.length_singleton]; omega),
      Mem.store_of_ge _ _ (by rwa [List.length_replicate])]

/-- The DC value is the first of the block. -/
theorem startBlock_zero (sMCUs : Nat → Int16) (x : Int16) : startBlock iMCU sMCUs x iMCU = x :=
  Mem.store_of_getElem? (i := 0) _ rfl

/-- The others are zero. -/
theorem startBlock_cleared {sMCUs : Nat → Int16} {x : Int16} {z : Nat} (hz : 0 < z ∧ z < 64) :
    startBlock iMCU sMCUs x (iMCU + z) = 0 := by
  rw [startBlock, clearBlock, if_neg (by decide), Mem.store_of_ge]
  · exact Mem.store_of_getElem? _ (List.getElem?_replicate_of_lt hz.2)
  · simp only [List.length_singleton]
    omega

/-- The AC coefficients among all coefficients of a block. -/
theorem exists_ac_iff {P : Nat → Int → Prop} (x : Int) (acs : List Int) :
    (∃ i v, acs[i]? = some v ∧ P (1 + i) v) ↔ ∃ k v, 0 < k ∧ (x :: acs)[k]? = some v ∧ P k v := by
  constructor
  · intro ⟨i, v, hv, hP⟩
    exact ⟨1 + i, v, by omega, by rwa [Nat.add_comm, List.getElem?_cons_succ], hP⟩
  · intro ⟨k, v, hk, hv, hP⟩
    obtain ⟨i, rfl⟩ : ∃ i, k = i + 1 := ⟨k - 1, by omega⟩
    rw [List.getElem?_cons_succ] at hv
    exact ⟨i, v, hv, by rwa [Nat.add_comm]⟩

/-- The places of the AC coefficients. -/
theorem unzigzag_ac {acs : List Int} (hacs : acs.length = 63) {i : Nat} (hi : i < acs.length) :
    0 < unzigzag (1 + i) ∧ unzigzag (1 + i) < 64 := by
  refine ⟨Nat.pos_of_ne_zero fun h0 => ?_, unzigzag_lt (by omega)⟩
  have := unzigzag_inj (j := 1 + i) (k := 0) (by omega) (by decide) h0
  omega

/-- All coefficients are stored, each at its place and with its flags. -/
theorem holdsBlock_putAll (hacs : acs.length = 63) (sMCUs : Nat → Int16) (dc : Int)
    (bb : BufferedBits) {l : AcLoop}
    (hl : l = putAll iMCU 64 1 acs ⟨bb, startBlock iMCU sMCUs (Int16.ofInt dc), 0, 0⟩) :
    HoldsBlock iMCU (dc :: acs) l.sMCUs l.ucMaxACCol l.ucMaxACRow := by
  subst hl
  have hlt : ∀ i v, acs[i]? = some v → i < acs.length :=
    fun i v hv => (List.getElem?_eq_some_iff.mp hv).1
  refine ⟨fun k v hv => ?_, fun c => ?_, fun c => ?_⟩
  · cases k with
    | zero =>
      simp only [List.getElem?_cons_zero, Option.some.injEq] at hv
      rw [putAll_untouched, ← hv]
      · exact startBlock_zero _ _
      · intro i hi
        have := unzigzag_ac hacs hi
        simp only [show unzigzag 0 = 0 from rfl]
        omega
    | succ i =>
      rw [List.getElem?_cons_succ] at hv
      have hi := hlt i v hv
      rw [Nat.add_comm i 1]
      exact putAll_at _ _ _ (by omega) hv (by omega) (startBlock_cleared (unzigzag_ac hacs hi))
  · rw [putAll_col, ← exists_ac_iff (P := fun k v => v ≠ 0 ∧ unzigzag k % 8 = c)]
    simp only [UInt8.toNat_zero, Nat.zero_testBit, Bool.false_eq_true, false_or]
    exact exists_congr fun i => exists_congr fun v => and_congr_right fun hv =>
      and_congr_right fun _ => and_iff_right (by have := hlt i v hv; omega)
  · rw [putAll_row, ← exists_ac_iff (P := fun k v => v ≠ 0 ∧ 32 ≤ unzigzag k ∧ unzigzag k % 8 = c)]
    simp only [UInt8.toNat_zero, Nat.zero_testBit, Bool.false_eq_true, false_or]
    exact exists_congr fun i => exists_congr fun v => and_congr_right fun hv =>
      and_congr_right fun _ => and_iff_right (by have := hlt i v hv; omega)

/-- A block that was encoded is decoded. -/
theorem blockDecoded (iMCU : Nat) (pred : Int) (hr : Ready t h) (hfull : t.reduced = false)
    (hacs : acs.length = 63)
    (henc : encodeBlock (dcCodes t h) (acCodes t h) diff acs = some bits)
    (hfresh : Fresh s.vlc.ucFileBuf s.vlc.bb E) (hE : bitPos s.vlc.bb + bits.length ≤ E)
    (hbits : Holds s.vlc.ucFileBuf (bitPos s.vlc.bb) bits) :
    ∃ s', jpegDecodeMCU t iMCU s (Int32.ofInt pred) = (s', Int32.ofInt (pred + diff), 0) ∧
      BlockDecoded iMCU E s ((pred + diff) :: acs) bits.length s' := by
  obtain ⟨dc, hdc, henc⟩ := Option.bind_eq_some_iff.mp henc
  obtain ⟨ac, hac, rfl⟩ := Option.map_eq_some_iff.mp henc
  rw [List.length_append] at hE
  obtain ⟨hbits₁, hbits₂⟩ := holds_append.mp hbits
  have hpos := bitPos_refill s.vlc.ucFileBuf s.vlc.bb
  -- first the DC difference
  obtain ⟨bb₁, hdecode, hfresh₁, hpos₁⟩ := decodeDc_encoded hr (Int32.ofInt pred)
    (refill_off_le s.vlc.ucFileBuf s.vlc.bb) hdc hfresh.refill (by omega)
    (by rwa [hpos])
  rw [hpos] at hpos₁
  rw [← hpos₁] at hbits₂
  -- then the AC coefficients
  obtain ⟨bb₂, hfresh₂, hpos₂, hloop⟩ := acLoop_encoded hr iMCU 64 (r := 0) (k := 1) (n := 63)
    (s := ⟨bb₁, startBlock iMCU s.sMCUs (Int16.ofInt (pred + diff)), 0, 0⟩)
    (by omega) (by omega) hac hfresh₁ (by simp only; omega) hbits₂
  -- the decoder knows two AC tables
  have htable : ¬ t.ucACTable > 1 := by
    have hlt := hr.acTable
    rw [gt_iff_lt, UInt8.lt_iff_toNat_lt]
    simp only [UInt8.reduceToNat]
    omega
  generalize hp : putAll iMCU 64 (1 + 0) acs _ = l at hloop
  refine ⟨⟨{ s.vlc with bb := bb₂, iVLCOff := bb₂.pBuf }, l.sMCUs, l.ucMaxACCol, l.ucMaxACRow⟩,
    ?_, ?_⟩
  · rw [acRounds, startBlock] at hloop
    rw [jpegDecodeMCU]
    dsimp only
    rw [hdecode]
    dsimp only
    rw [if_neg htable, decodeAc, hr.b11Bit, if_neg (by decide), hfull, if_neg (by decide),
      ← Int32.ofInt_add, Int32.toInt16_ofInt, hloop]
  · refine ⟨rfl, hfresh₂, ?_, holdsBlock_putAll hacs s.sMCUs (pred + diff) bb₁ hp.symm, ?_⟩
    · simp only at hpos₂
      rw [hpos₂, hpos₁, List.length_append, Nat.add_assoc]
    · intro a ha
      rw [← hp]
      refine Eq.trans (putAll_untouched _ _ _ fun i hi => ?_) (startBlock_frame ha)
      have := unzigzag_ac hacs hi
      simp only [Nat.add_zero]
      omega

end

end Ivy.Spec
