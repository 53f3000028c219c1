import Ivy.Spec.JpegScan

/-!
# What the decoder reads and writes, whatever the data is

Nothing in the data tells where it ends: the decoder follows the codes that it finds, and looks for
more data only between two MCUs. It never goes back. With tables of codes of at most 16 bits each
code moves it on by a limited number of bits, so that there is a limit for what one MCU can read, on
any data.

## Key results

- `decodeMCU_within`: a block is decoded within its 64 coefficients and the next 1983 bits
- `scan_reads_bounded`: in a scan of any data, what lies behind the limit has no influence
- `never_fed_behind_end`: a decoder that has come behind the end of its data stays there, whatever
  its tables are
-/

namespace Ivy.Spec

open Ivy.Native Ivy.Bits

/-! ## Two buffers that agree -/

/-- Reading a word in front of `B`. -/
theorem motoLong_congr {buf buf' : Nat → UInt8} {B p : Nat} (hagree : ∀ a < B, buf' a = buf a)
    (hp : p + 4 ≤ B) : motoLong buf' p = motoLong buf p := by
  rw [motoLong, motoLong, hagree p (by omega), hagree (p + 1) (by omega), hagree (p + 2) (by omega),
    hagree (p + 3) (by omega)]

/-- Refilling in front of `B`. -/
theorem refill_congr {buf buf' : Nat → UInt8} {B : Nat} {bb : BufferedBits}
    (hagree : ∀ a < B, buf' a = buf a) (hB : bitPos bb / 8 + 4 ≤ B) :
    bb.refill buf' = bb.refill buf := by
  have hload : bb.pBuf + (bb.ulBitOff >>> 3).toNat = bitPos bb / 8 := by
    simp only [bitPos, UInt32.toNat_shiftRight, UInt32.reduceToNat, Nat.reduceMod,
      Nat.shiftRight_eq_div_pow]
    omega
  simp only [BufferedBits.refill, hload, motoLong_congr hagree hB]

/-! ## Moving on -/

/-- From `bb` to `bb'` the decoder has gone on by at most `n` bits. It is still within the word that
    it has loaded. -/
structure Moved (n : Nat) (bb bb' : BufferedBits) : Prop where
  high : bitPos bb' ≤ bitPos bb + n
  off : bb'.ulBitOff.toNat ≤ 31

/-- Two moves in a row. -/
theorem Moved.trans {n n' : Nat} {bb bb' bb'' : BufferedBits} (h : Moved n bb bb')
    (h' : Moved n' bb' bb'') : Moved (n + n') bb bb'' := by
  refine ⟨?_, h'.off⟩
  have hfirst := h.high
  have hsecond := h'.high
  omega

/-- A weaker bound. -/
theorem Moved.mono {n n' : Nat} {bb bb' : BufferedBits} (h : Moved n bb bb') (hle : n ≤ n') :
    Moved n' bb bb' :=
  ⟨Nat.le_trans h.high (Nat.add_le_add_left hle _), h.off⟩

/-- Skipping bits. -/
theorem moved_skip {bb : BufferedBits} {n : UInt32} {k : Nat} (hoff : bb.ulBitOff.toNat ≤ 15)
    (hn : n.toNat ≤ k) (hk : k ≤ 16) : Moved k bb (bb.skip n) := by
  refine ⟨?_, ?_⟩
  · rw [bitPos_skip hoff (by omega)]
    omega
  · simp only [BufferedBits.skip, UInt32.toNat_add]
    omega

/-- Refilling takes no bits. -/
theorem moved_refill (bb : BufferedBits) (buf : Nat → UInt8) : Moved 0 bb (bb.refill buf) :=
  ⟨Nat.le_of_eq (bitPos_refill buf bb), Nat.le_trans (refill_off_le buf bb) (by decide)⟩

/-- Bits are taken from a word that may have to be loaded before. -/
theorem moved_refill_skip (bb : BufferedBits) (buf : Nat → UInt8) {n : UInt32} {k : Nat}
    (hn : n.toNat ≤ k) (hk : k ≤ 16) : Moved k bb ((bb.refill buf).skip n) :=
  ((moved_refill bb buf).trans (moved_skip (refill_off_le buf bb) hn hk)).mono (Nat.zero_add k).le

/-! ## One block -/

/-- A store in a block. -/
theorem store_outside {iMCU k : Nat} (m : Nat → Int16) {l : List Int16} (hk : k + l.length ≤ 64)
    {a : Nat} (ha : a < iMCU ∨ iMCU + 64 ≤ a) : Mem.store m (iMCU + k) l a = m a := by
  rcases ha with ha | ha
  · exact Mem.store_of_lt _ _ (by omega)
  · exact Mem.store_of_ge _ _ (by omega)

/-- Clearing a block leaves the others. -/
theorem clearBlock_outside (reduced : Bool) {iMCU : Nat} (m : Nat → Int16) {a : Nat}
    (ha : a < iMCU ∨ iMCU + 64 ≤ a) : clearBlock reduced iMCU m a = m a := by
  rw [clearBlock]
  split
  · rw [store_outside _ (by decide) ha, store_outside _ (by decide) ha]
  · exact store_outside (k := 0) _ (by simp) ha

/-- A coefficient that is stored is one of the block. -/
theorem put_outside {pEnd2 m : Nat} (hend : pEnd2 ≤ 64) {s : AcLoop} (z : Nat) (c : Prop)
    [Decidable c] (value : Int16) (a : Nat) (ha : a < m ∨ m + 64 ≤ a) :
    (if z < pEnd2 ∧ c then s.put m (unzigzag z) value else s).sMCUs a = s.sMCUs a := by
  split
  · have hlt := unzigzag_lt (show z < 64 by omega)
    exact store_outside _ (by simp only [List.length_singleton]; omega) ha
  · rfl

/-- The low nibble of a DC symbol is a number of bits. -/
theorem low_nibble_le (n : UInt8) : (n &&& 0xf).toUInt32.toNat ≤ 15 := by
  rw [UInt8.toNat_toUInt32, UInt8.toNat_and, show UInt8.toNat 0xf = 2 ^ 4 - 1 from rfl,
    Nat.and_two_pow_sub_one_eq_mod]
  omega

/-- The low nibble of an AC symbol is a number of bits. -/
theorem extra_bits_le (n : UInt32) : (n &&& 0xf).toNat ≤ 15 := by
  rw [UInt32.toNat_and, show UInt32.toNat 0xf = 2 ^ 4 - 1 from rfl, Nat.and_two_pow_sub_one_eq_mod]
  omega

/-- The high nibble of a DC entry is the length of its code. -/
theorem high_nibble_le (n : UInt8) : (n >>> 4).toUInt32.toNat ≤ 15 := by
  have hlt := n.toNat_lt
  rw [UInt8.toNat_toUInt32, UInt8.toNat_shiftRight, Nat.shiftRight_eq_div_pow]
  simp only [UInt8.reduceToNat, Nat.reduceMod]
  omega

section

variable {t : McuTables} {buf : Nat → UInt8} {bb bb' : BufferedBits} {iDCPred iDCPred' : Int32}

/-- The DC coefficient takes at most 30 bits, for any tables. -/
theorem decodeDc_moved (hoff : bb.ulBitOff.toNat ≤ 15)
    (hdc : decodeDc t buf bb iDCPred = some (bb', iDCPred')) : Moved 30 bb bb' := by
  rw [decodeDc] at hdc
  dsimp only at hdc
  generalize t.ucHuffDC _ = ucHuff at hdc
  have hcode := moved_skip hoff (high_nibble_le ucHuff) (by decide)
  split at hdc
  · cases hdc
  · split at hdc
    · split at hdc
      · cases hdc
        exact hcode.mono (by decide)
      · -- the extra bits are not part of the lookup
        cases hdc
        exact hcode.trans (moved_refill_skip _ buf (low_nibble_le ucHuff) (by decide))
    · cases hdc
      exact hcode.mono (by decide)

/-- Decoding the DC difference in front of `B`. -/
theorem decodeDc_congr {buf' : Nat → UInt8} {B : Nat} (hagree : ∀ a < B, buf' a = buf a)
    (hoff : bb.ulBitOff.toNat ≤ 15) (hB : (bitPos bb + 30) / 8 + 4 ≤ B) :
    decodeDc t buf' bb iDCPred = decodeDc t buf bb iDCPred := by
  rw [decodeDc, decodeDc]
  dsimp only
  generalize t.ucHuffDC (t.ucDCTable.toNat * dcTableSize + (dcIndex (bb.peek 12)).toNat) = ucHuff
  have hhigh := (moved_skip hoff (high_nibble_le ucHuff) (by decide)).high
  rw [refill_congr hagree (by omega)]

variable {h : HuffTables} (hr : Ready t h) (hfit : h.used 2 = false ∧ h.used 3 = false)

include hr hfit

/-- An AC code has at most 16 bits. -/
theorem ac_len_le (hoff : bb.ulBitOff.toNat ≤ 15) :
    ((t.usHuffAC (t.ucACTable.toNat * huff11Size + (acIndex (bb.peek 16)).toNat)).toUInt32 >>>
      8).toNat ≤ 16 := by
  have htable := hr.acTable
  have hpeek : (bb.peek 16).toNat = field (seen (fun _ => 0) bb) (bitPos bb) 16 :=
    peek_toNat hoff (by decide) (by decide)
  have hwindow : (bb.peek 16).toNat < 2 ^ 16 := by
    rw [hpeek]
    exact field_lt _ _ _
  -- the window begins with a code, whose length the entry gives, or with none
  rw [hr.ac]
  by_cases hcode : ∃ c ∈ tableCodes h.pHuffVals (t.ucACTable.toNat + 4),
      c.Begins 16 (bb.peek 16).toNat
  · obtain ⟨c, hc, hbegins⟩ := hcode
    have hbounds := (hr.expanded.proper (t.ucACTable.toNat + 4) (by omega) hr.acUsed).bounds hc
    have hsym := c.sym.toNat_lt
    rw [hr.expanded.ac_code (by omega) hr.acUsed hwindow hc hbegins, UInt32.toNat_shiftRight,
      acEntry_toNat hbounds.1.2, Nat.shiftRight_eq_div_pow]
    simp only [UInt32.reduceToNat, Nat.reduceMod]
    omega
  · -- no code: the entry is still zero
    have hnone : ∀ c ∈ tableCodes h.pHuffVals (t.ucACTable.toNat + 4),
        ¬ c.Begins 16 (bb.peek 16).toNat := fun c hc hbegins => hcode ⟨c, hc, hbegins⟩
    rw [hr.expanded.ac_none (by omega) hr.acUsed hwindow hfit hnone, usHuffAC_of_zero hr.zero]
    decide

/-- The loop over the AC coefficients takes at most 31 bits in a round, a code of 16 bits and 15
    extra bits, and only writes to the block. -/
theorem acRounds_moved (buf : Nat → UInt8) (iMCU : Nat) {pEnd2 : Nat} (hend : pEnd2 ≤ 64)
    (n pZig : Nat) (s : AcLoop) (hoff : s.bb.ulBitOff.toNat ≤ 31) :
    Moved (31 * n) s.bb (acRounds t buf iMCU pEnd2 n pZig s).1.bb ∧
      ∀ a, a < iMCU ∨ iMCU + 64 ≤ a →
        (acRounds t buf iMCU pEnd2 n pZig s).1.sMCUs a = s.sMCUs a := by
  induction n generalizing pZig s with
  | zero => exact ⟨⟨Nat.le_refl _, hoff⟩, fun _ _ => rfl⟩
  | succ n ih =>
    have hstay : Moved (31 * (n + 1)) s.bb s.bb := ⟨Nat.le_add_right _ _, hoff⟩
    have hcode := moved_refill_skip s.bb buf (ac_len_le hr hfit (refill_off_le buf s.bb))
      (by decide)
    rw [acRounds, acLoop]
    dsimp only
    generalize (t.usHuffAC _).toUInt32 = usHuff at hcode ⊢
    have hextra := moved_refill_skip ((s.bb.refill buf).skip (usHuff >>> 8)) buf
      (extra_bits_le (usHuff &&& 0xff)) (by decide)
    by_cases hz : pZig < 64
    · rw [if_pos hz]
      split
      · -- an invalid code
        exact ⟨hstay, fun _ _ => rfl⟩
      · split
        · -- the end of the block
          exact ⟨hcode.mono (by omega), fun _ _ => rfl⟩
        · generalize pZig + ((usHuff &&& 0xff) >>> 4).toNat = z
          generalize (BufferedBits.extra _ (usHuff &&& 0xff &&& 0xf)).toInt32.toInt16 = value
          have hput := put_outside hend (m := iMCU) (s := s) z (usHuff &&& 0xff &&& 0xf ≠ 0) value
          generalize (if z < pEnd2 ∧ usHuff &&& 0xff &&& 0xf ≠ 0 then s.put iMCU (unzigzag z) value
            else s) = s' at hput ⊢
          -- 16 bits for the code and 15 for the coefficient; the other rounds go on from there
          obtain ⟨hrest, hframe⟩ := ih (z + 1) { s' with bb := _ } hextra.off
          exact ⟨((hcode.trans hextra).trans hrest).mono (by omega),
            fun a ha => (hframe a ha).trans (hput a ha)⟩
    · rw [if_neg hz]
      exact ⟨hstay, fun _ _ => rfl⟩

/-- The loop reads at most the word at the end of what it can take. -/
theorem acRounds_congr {buf' : Nat → UInt8} {B : Nat} (hagree : ∀ a < B, buf' a = buf a)
    (iMCU pEnd2 n pZig : Nat) (s : AcLoop) (hB : (bitPos s.bb + 31 * n) / 8 + 4 ≤ B) :
    acRounds t buf' iMCU pEnd2 n pZig s = acRounds t buf iMCU pEnd2 n pZig s := by
  induction n generalizing pZig s with
  | zero => rfl
  | succ n ih =>
    have hcode := moved_refill_skip s.bb buf (ac_len_le hr hfit (refill_off_le buf s.bb))
      (by decide)
    rw [acRounds, acRounds, acLoop, acLoop, refill_congr hagree (by omega)]
    dsimp only
    generalize (t.usHuffAC _).toUInt32 = usHuff at hcode ⊢
    have hextra := moved_refill_skip ((s.bb.refill buf).skip (usHuff >>> 8)) buf
      (extra_bits_le (usHuff &&& 0xff)) (by decide)
    have hhigh := hcode.high
    have hhigh' := (hcode.trans hextra).high
    rw [refill_congr hagree (show _ / 8 + 4 ≤ B by omega)]
    -- the words are the same, so both loops take the same branches
    refine if_congr Iff.rfl (if_congr Iff.rfl rfl (if_congr Iff.rfl rfl ?_)) rfl
    exact ih _ _ (by simp only; omega)

/-- Decoding a block, on any data: at most 1983 bits are taken, and only the coefficients of the
    block are written. With invalid data the decoder stays where it was. -/
theorem decodeMCU_within (iMCU : Nat) (s : McuState) (iDCPred : Int32) {s' : McuState}
    {iDCPred' : Int32} {err : Int}
    (hdec : jpegDecodeMCU t iMCU s iDCPred = (s', iDCPred', err)) :
    (∀ a, a < iMCU ∨ iMCU + 64 ≤ a → s'.sMCUs a = s.sMCUs a) ∧
      (err ≠ 0 ∧ s'.vlc = s.vlc ∨ Moved 1983 s.vlc.bb s'.vlc.bb) := by
  have hclear : ∀ a, a < iMCU ∨ iMCU + 64 ≤ a →
      clearBlock t.reduced iMCU s.sMCUs a = s.sMCUs a := fun a ha => clearBlock_outside _ _ ha
  rw [jpegDecodeMCU] at hdec
  dsimp only at hdec
  split at hdec
  · -- no DC code: only the block has been cleared
    cases hdec
    exact ⟨hclear, .inl ⟨by decide, rfl⟩⟩
  · rename_i bb iDCPred₁ hdc
    -- 30 bits at most for the DC difference
    have hdcMoved := decodeDc_moved (refill_off_le s.vlc.ucFileBuf s.vlc.bb) hdc
    have hfirst : ∀ a, a < iMCU ∨ iMCU + 64 ≤ a →
        Mem.store (clearBlock t.reduced iMCU s.sMCUs) iMCU [iDCPred₁.toInt16] a = s.sMCUs a :=
      fun a ha => (store_outside (k := 0) _ (by simp) ha).trans (hclear a ha)
    split at hdec
    · cases hdec
      exact ⟨hfirst, .inl ⟨by decide, rfl⟩⟩
    · rw [decodeAc, hr.b11Bit] at hdec
      simp only [Bool.false_eq_true, if_false] at hdec
      -- 31 bits at most for each of the 63 AC coefficients
      have hac := acRounds_moved hr hfit s.vlc.ucFileBuf iMCU
        (show (if t.reduced then 5 else 64) ≤ 64 by split <;> decide) 63 1
        ⟨bb, Mem.store (clearBlock t.reduced iMCU s.sMCUs) iMCU [iDCPred₁.toInt16], 0, 0⟩
        hdcMoved.off
      unfold acRounds at hac
      generalize acLoop _ _ _ _ _ _ _ _ = r at hac hdec
      obtain ⟨l, ok⟩ := r
      have hframe := fun a ha => (hac.2 a ha).trans (hfirst a ha)
      cases ok with
      | false =>
        cases hdec
        exact ⟨hframe, .inl ⟨by decide, rfl⟩⟩
      | true =>
        cases hdec
        have hrefill := moved_refill s.vlc.bb s.vlc.ucFileBuf
        exact ⟨hframe, .inr ((hrefill.trans (hdcMoved.trans hac.1)).mono (by decide))⟩

/-- The same state with another buffer. -/
def withBuf (s : McuState) (buf : Nat → UInt8) : McuState :=
  { s with vlc := { s.vlc with ucFileBuf := buf } }

/-- What lies behind the bits that a block can take has no influence on it. -/
theorem decodeMCU_congr {buf' : Nat → UInt8} {s : McuState} {B : Nat}
    (hagree : ∀ a < B, buf' a = s.vlc.ucFileBuf a) (hB : (bitPos s.vlc.bb + 1983) / 8 + 4 ≤ B)
    (iMCU : Nat) (iDCPred : Int32) :
    jpegDecodeMCU t iMCU (withBuf s buf') iDCPred =
      (withBuf (jpegDecodeMCU t iMCU s iDCPred).1 buf', (jpegDecodeMCU t iMCU s iDCPred).2) := by
  have hoff := refill_off_le s.vlc.ucFileBuf s.vlc.bb
  have hpos := bitPos_refill s.vlc.ucFileBuf s.vlc.bb
  rw [jpegDecodeMCU, jpegDecodeMCU]
  simp only [withBuf]
  rw [refill_congr hagree (by omega), decodeDc_congr hagree hoff (by omega)]
  split
  · rfl
  · rename_i bb iDCPred₁ hdc
    -- the AC loop starts where both have stopped
    have hhigh := (decodeDc_moved hoff hdc).high
    split
    · rfl
    · simp only [decodeAc, hr.b11Bit, Bool.false_eq_true, if_false]
      have hac := acRounds_congr hr hfit hagree iMCU (if t.reduced then 5 else 64) 63 1
        ⟨bb, Mem.store (clearBlock t.reduced iMCU s.sMCUs) iMCU [iDCPred₁.toInt16], 0, 0⟩
        (by simp only; omega)
      unfold acRounds at hac
      rw [hac]
      split <;> rfl

end

/-! ## Forward, with any tables -/

section

variable {t : McuTables} {buf : Nat → UInt8}

/-- A word that is loaded lies behind the one before. -/
theorem pBuf_le_refill (bb : BufferedBits) (buf : Nat → UInt8) :
    bb.pBuf ≤ (bb.refill buf).pBuf := by
  rw [BufferedBits.refill]
  split
  · exact Nat.le_add_right _ _
  · exact Nat.le_refl _

/-- Decoding the DC difference does not go back. -/
theorem decodeDc_forward {bb bb' : BufferedBits} {iDCPred iDCPred' : Int32}
    (hdc : decodeDc t buf bb iDCPred = some (bb', iDCPred')) : bb.pBuf ≤ bb'.pBuf := by
  rw [decodeDc] at hdc
  dsimp only at hdc
  generalize t.ucHuffDC _ = ucHuff at hdc
  split at hdc
  · cases hdc
  · split at hdc
    · split at hdc
      · cases hdc
        exact Nat.le_refl _
      · cases hdc
        exact pBuf_le_refill (bb.skip (ucHuff >>> 4).toUInt32) buf
    · cases hdc
      exact Nat.le_refl _

/-- Neither the tables nor the way of the lookup matter. -/
theorem acLoop_forward (index : UInt32 → UInt32) (pFast : Nat → UInt16) (iMCU pEnd2 n pZig : Nat)
    (s : AcLoop) : s.bb.pBuf ≤ (acLoop index pFast buf iMCU pEnd2 n pZig s).1.bb.pBuf := by
  induction n generalizing pZig s with
  | zero => exact Nat.le_refl _
  | succ n ih =>
    have hcode := pBuf_le_refill s.bb buf
    rw [acLoop]
    dsimp only
    generalize (pFast _).toUInt32 = usHuff
    split
    · split
      · exact Nat.le_refl _
      · split
        · exact hcode
        · -- the code, the extra bits, and the other rounds
          have hextra := pBuf_le_refill ((s.bb.refill buf).skip (usHuff >>> 8)) buf
          refine Nat.le_trans hcode (Nat.le_trans hextra (Nat.le_trans ?_ (ih _ _)))
          exact Nat.le_refl _
    · exact Nat.le_refl _

/-- Decoding a block, with any tables: of the buffered data only the position changes, and the
    decoder does not go back. -/
theorem decodeMCU_forward (t : McuTables) (iMCU : Nat) (s : McuState) (iDCPred : Int32) :
    s.vlc.bb.pBuf ≤ (jpegDecodeMCU t iMCU s iDCPred).1.vlc.bb.pBuf ∧
      (jpegDecodeMCU t iMCU s iDCPred).1.vlc =
        { s.vlc with
          bb := (jpegDecodeMCU t iMCU s iDCPred).1.vlc.bb
          iVLCOff := (jpegDecodeMCU t iMCU s iDCPred).1.vlc.iVLCOff } ∧
      ((jpegDecodeMCU t iMCU s iDCPred).2.2 = 0 →
        (jpegDecodeMCU t iMCU s iDCPred).1.vlc.iVLCOff =
          (jpegDecodeMCU t iMCU s iDCPred).1.vlc.bb.pBuf) := by
  rw [jpegDecodeMCU]
  dsimp only
  split
  · exact ⟨Nat.le_refl _, rfl, fun herr => absurd herr (by simp)⟩
  · rename_i bb iDCPred₁ hdc
    have hfirst := Nat.le_trans (pBuf_le_refill s.vlc.bb _) (decodeDc_forward hdc)
    split
    · exact ⟨Nat.le_refl _, rfl, fun herr => absurd herr (by simp)⟩
    · -- which of the two loops is taken does not matter
      have hac : bb.pBuf ≤ (decodeAc t s.vlc.ucFileBuf iMCU ⟨bb, Mem.store
          (clearBlock t.reduced iMCU s.sMCUs) iMCU [iDCPred₁.toInt16], 0, 0⟩).1.bb.pBuf := by
        rw [decodeAc]
        split
        · exact acLoop_forward _ _ _ _ _ _ ⟨bb, _, 0, 0⟩
        · exact acLoop_forward _ _ _ _ _ _ ⟨bb, _, 0, 0⟩
      generalize decodeAc t s.vlc.ucFileBuf iMCU _ = r at hac
      obtain ⟨l, ok⟩ := r
      cases ok with
      | false => exact ⟨Nat.le_refl _, rfl, fun herr => absurd herr (by simp)⟩
      | true => exact ⟨Nat.le_trans hfirst hac, rfl, fun _ => rfl⟩

end

/-! ## One MCU -/

/-- The same state with another buffer. -/
def scanWithBuf (s : ScanState) (buf : Nat → UInt8) : ScanState :=
  { s with mcu := withBuf s.mcu buf }

/-- From `s` to `s'` the decoder has tried to decode some blocks. The bytes are where they were, the
    decoder has not gone back, and without an error `iVLCOff`, which `JPEGGetMoreData` uses, is its
    position again. -/
structure BlocksForward (s s' : ScanState) (err : Bool) : Prop where
  low : s.mcu.vlc.bb.pBuf ≤ s'.mcu.vlc.bb.pBuf
  vlc : s'.mcu.vlc = { s.mcu.vlc with bb := s'.mcu.vlc.bb, iVLCOff := s'.mcu.vlc.iVLCOff }
  off : err = false → s.mcu.vlc.iVLCOff = s.mcu.vlc.bb.pBuf →
    s'.mcu.vlc.iVLCOff = s'.mcu.vlc.bb.pBuf

/-- One block, with any tables. -/
theorem decodeBlock_forward (p : ScanInfo) (block : Nat × Nat) (s : ScanState) :
    BlocksForward s (p.decodeBlock block s).1 (p.decodeBlock block s).2 := by
  have hfwd := decodeMCU_forward (p.mcuTables block.2) block.1 s.mcu (s.iDCPred block.2)
  rw [ScanInfo.decodeBlock]
  generalize jpegDecodeMCU (p.mcuTables block.2) block.1 s.mcu (s.iDCPred block.2) = r at hfwd ⊢
  obtain ⟨m, iDCPred, err⟩ := r
  obtain ⟨hlow, hvlc, hoff⟩ := hfwd
  exact ⟨hlow, hvlc, fun herr _ => hoff (by simpa using herr)⟩

/-- All blocks of an MCU, with any tables. -/
theorem decodeBlocks_forward (p : ScanInfo) (blocks : List (Nat × Nat)) (s : ScanState) :
    BlocksForward s (p.decodeBlocks blocks s).1 (p.decodeBlocks blocks s).2 := by
  induction blocks generalizing s with
  | nil => exact ⟨Nat.le_refl _, rfl, fun _ => id⟩
  | cons block blocks ih =>
    have hfirst := decodeBlock_forward p block s
    have hrest := ih (p.decodeBlock block s).1
    rw [ScanInfo.decodeBlocks]
    generalize p.decodeBlock block s = r at hfirst hrest ⊢
    obtain ⟨s₁, err₁⟩ := r
    dsimp only at hfirst hrest ⊢
    generalize p.decodeBlocks blocks s₁ = r at hrest ⊢
    obtain ⟨s₂, err₂⟩ := r
    dsimp only at hrest ⊢
    refine ⟨Nat.le_trans hfirst.low hrest.low, ?_, fun herr hs => ?_⟩
    · rw [hrest.vlc, hfirst.vlc]
    · -- without an error in any block
      obtain ⟨h₁, h₂⟩ := Bool.or_eq_false_iff.mp herr
      exact hrest.off h₂ (hfirst.off h₁ hs)

/-- The position that `JPEGGetMoreData` uses is that of the decoder. -/
def Synced (v : Vlc) : Prop := v.iVLCOff = v.bb.pBuf ∧ v.bb.ulBitOff.toNat ≤ 32

/-- How far the decoder may have come with some blocks. -/
structure BlocksWithin (blocks : List (Nat × Nat)) (s s' : ScanState) (err : Bool) : Prop where
  high : bitPos s'.mcu.vlc.bb ≤ bitPos s.mcu.vlc.bb + 1983 * blocks.length
  bitOff : err = false → s.mcu.vlc.bb.ulBitOff.toNat ≤ 32 → s'.mcu.vlc.bb.ulBitOff.toNat ≤ 32

section

variable {p : ScanInfo} {h : HuffTables} (hfit : h.used 2 = false ∧ h.used 3 = false)

include hfit

/-- One block takes at most 1983 bits. -/
theorem decodeBlock_within {block : Nat × Nat} (hr : Ready (p.mcuTables block.2) h)
    (s : ScanState) :
    BlocksWithin [block] s (p.decodeBlock block s).1 (p.decodeBlock block s).2 := by
  rcases hm : jpegDecodeMCU (p.mcuTables block.2) block.1 s.mcu (s.iDCPred block.2) with
    ⟨m, iDCPred, err⟩
  rw [ScanInfo.decodeBlock]
  simp only [hm]
  rcases (decodeMCU_within hr hfit _ _ _ hm).2 with ⟨herr, hvlc⟩ | hmoved
  · -- invalid data
    refine ⟨?_, fun hok _ => absurd (by simpa using hok) herr⟩
    simp only [hvlc]
    exact Nat.le_add_right _ _
  · exact ⟨hmoved.high, fun _ _ => Nat.le_succ_of_le hmoved.off⟩

/-- The blocks of an MCU take that many bits each. -/
theorem decodeBlocks_within {blocks : List (Nat × Nat)}
    (hr : ∀ b ∈ blocks, Ready (p.mcuTables b.2) h) (s : ScanState) :
    BlocksWithin blocks s (p.decodeBlocks blocks s).1 (p.decodeBlocks blocks s).2 := by
  induction blocks generalizing s with
  | nil => exact ⟨Nat.le_refl _, fun _ => id⟩
  | cons block blocks ih =>
    have hfirst := decodeBlock_within hfit (hr block List.mem_cons_self) s
    have hrest := ih (fun b hb => hr b (List.mem_cons_of_mem _ hb)) (p.decodeBlock block s).1
    rw [ScanInfo.decodeBlocks]
    generalize p.decodeBlock block s = r at hfirst hrest ⊢
    obtain ⟨s₁, err₁⟩ := r
    dsimp only at hfirst hrest ⊢
    generalize p.decodeBlocks blocks s₁ = r at hrest ⊢
    obtain ⟨s₂, err₂⟩ := r
    dsimp only at hrest ⊢
    refine ⟨?_, fun herr hs => ?_⟩
    · have h₁ := hfirst.high
      have h₂ := hrest.high
      rw [List.length_singleton] at h₁
      rw [List.length_cons]
      omega
    · obtain ⟨h₁, h₂⟩ := Bool.or_eq_false_iff.mp herr
      exact hrest.bitOff h₂ (hfirst.bitOff h₁ hs)

/-- What lies behind the bits that the blocks can take has no influence on them. -/
theorem decodeBlocks_congr {blocks : List (Nat × Nat)}
    (hr : ∀ b ∈ blocks, Ready (p.mcuTables b.2) h) {s : ScanState} {buf' : Nat → UInt8} {B : Nat}
    (hagree : ∀ a < B, buf' a = s.mcu.vlc.ucFileBuf a)
    (hB : (bitPos s.mcu.vlc.bb + 1983 * blocks.length) / 8 + 4 ≤ B) :
    p.decodeBlocks blocks (scanWithBuf s buf') =
      (scanWithBuf (p.decodeBlocks blocks s).1 buf', (p.decodeBlocks blocks s).2) := by
  induction blocks generalizing s with
  | nil => rfl
  | cons block blocks ih =>
    rw [List.length_cons, Nat.mul_succ] at hB
    -- the first block needs no more than all of them
    have hroom : (bitPos s.mcu.vlc.bb + 1983) / 8 + 4 ≤ B := by
      refine Nat.le_trans (Nat.add_le_add_right (Nat.div_le_div_right ?_) 4) hB
      exact Nat.add_le_add_left (Nat.le_add_left _ _) _
    have hready := hr block List.mem_cons_self
    have hfirst := decodeBlock_within hfit hready s
    have hforward := decodeBlock_forward p block s
    have hblock : p.decodeBlock block (scanWithBuf s buf') =
        (scanWithBuf (p.decodeBlock block s).1 buf', (p.decodeBlock block s).2) := by
      have hmcu := decodeMCU_congr hready hfit hagree hroom block.1 (s.iDCPred block.2)
      simp only [ScanInfo.decodeBlock, scanWithBuf, hmcu]
      rfl
    rw [ScanInfo.decodeBlocks, ScanInfo.decodeBlocks, hblock]
    generalize p.decodeBlock block s = r at hfirst hforward ⊢
    obtain ⟨s₁, err₁⟩ := r
    dsimp only at hfirst hforward ⊢
    have hhigh := hfirst.high
    rw [List.length_singleton] at hhigh
    -- the other blocks find the same buffer
    have hbuf : s₁.mcu.vlc.ucFileBuf = s.mcu.vlc.ucFileBuf := by rw [hforward.vlc]
    rw [ih (fun b hb => hr b (List.mem_cons_of_mem _ hb)) (by rwa [hbuf]) (by omega)]

end

/-! ## More data -/

section

variable {buf buf' : Nat → UInt8} {B : Nat}

/-- A store keeps two buffers alike. -/
theorem agree_store (hagree : ∀ a < B, buf' a = buf a) (o : Nat) (l : List UInt8) :
    ∀ a < B, Mem.store buf' o l a = Mem.store buf o l a :=
  fun a ha => Mem.store_congr o l (hagree a ha)

/-- The filter only reads the bytes that it filters. -/
theorem filterLoop_congr {stop : Nat} (hstop : stop ≤ B) (n s d : Nat)
    (hagree : ∀ a < B, buf' a = buf a) :
    ∃ b b' s' d', filterLoop stop n ⟨buf, s, d⟩ = ⟨b, s', d'⟩ ∧
      filterLoop stop n ⟨buf', s, d⟩ = ⟨b', s', d'⟩ ∧ ∀ a < B, b' a = b a := by
  induction n generalizing buf buf' s d with
  | zero => exact ⟨buf, buf', s, d, rfl, rfl, hagree⟩
  | succ n ih =>
    rw [filterLoop, filterLoop]
    by_cases hs : s + 1 < stop
    · rw [if_pos hs, if_pos hs]
      dsimp only
      rw [hagree s (by omega)]
      -- the byte that is copied is the same in both
      have hnext := agree_store hagree d [buf s]
      rw [hnext (s + 1) (by omega)]
      by_cases hff : buf s = 0xff
      · rw [if_pos hff, if_pos hff]
        exact ih _ _ hnext
      · rw [if_neg hff, if_neg hff]
        exact ih _ _ hnext
    · rw [if_neg hs, if_neg hs]
      exact ⟨buf, buf', s, d, rfl, rfl, hagree⟩

/-- The same bytes in front of `B` start the filter in the same way. -/
theorem filterFirst_congr {p : Nat} (hp : p < B) (d : Nat) (ff : Bool)
    (hagree : ∀ a < B, buf' a = buf a) :
    ∃ b b' s' d', filterFirst buf p d ff = ⟨b, s', d'⟩ ∧ filterFirst buf' p d ff = ⟨b', s', d'⟩ ∧
      ∀ a < B, b' a = b a := by
  rw [filterFirst, filterFirst, hagree p hp]
  split
  · split
    · exact ⟨_, _, _, _, rfl, rfl, agree_store hagree d [0xff]⟩
    · exact ⟨_, _, _, _, rfl, rfl, hagree⟩
  · exact ⟨_, _, _, _, rfl, rfl, hagree⟩

/-- The same bytes in front of `B` are filtered in the same way. -/
theorem jpegFilter_congr {p n : Nat} (hp : p < B) (hn : p + n ≤ B) (d : Nat) (ff : Bool)
    (hagree : ∀ a < B, buf' a = buf a) :
    (jpegFilter buf' p d n ff).2 = (jpegFilter buf p d n ff).2 ∧
      ∀ a < B, (jpegFilter buf' p d n ff).1 a = (jpegFilter buf p d n ff).1 a := by
  obtain ⟨b₁, b₁', s₁, d₁, hfirst, hfirst', hagree₁⟩ := filterFirst_congr hp d ff hagree
  obtain ⟨b₂, b₂', s₂, d₂, hloop, hloop', hagree₂⟩ := filterLoop_congr hn n s₁ d₁ hagree₁
  rw [jpegFilter, jpegFilter, hfirst, hfirst', hloop, hloop']
  dsimp only
  by_cases hlast : s₂ + 1 = p + n
  · rw [if_pos hlast, if_pos hlast, hagree₂ s₂ (by omega)]
    split
    · exact ⟨rfl, hagree₂⟩
    · exact ⟨rfl, agree_store hagree₂ d₂ _⟩
  · rw [if_neg hlast, if_neg hlast]
    exact ⟨rfl, hagree₂⟩

end

/-- The state with another buffer that agrees with its own below `B`. -/
def SameBelow (B : Nat) (v v' : Vlc) : Prop :=
  ∃ buf', v' = { v with ucFileBuf := buf' } ∧ ∀ a < B, buf' a = v.ucFileBuf a

section

variable {v v' : Vlc} {B : Nat}

/-- The data is moved down alike. -/
theorem SameBelow.moveDown (ha : SameBelow B v v') (hsize : v.iVLCSize ≤ B) :
    SameBelow B v.moveDown v'.moveDown := by
  obtain ⟨buf', rfl, hagree⟩ := ha
  rw [Vlc.moveDown, Vlc.moveDown]
  split
  · refine ⟨_, rfl, ?_⟩
    -- all the bytes that are moved lie in front of `B`
    have hload : Mem.load buf' v.iVLCOff (v.iVLCSize - v.iVLCOff) =
        Mem.load v.ucFileBuf v.iVLCOff (v.iVLCSize - v.iVLCOff) :=
      Mem.load_congr fun j _ hj => hagree j (by omega)
    simp only [hload]
    exact agree_store hagree _ _
  · exact ⟨buf', rfl, hagree⟩

/-- The buffer is filled alike. -/
theorem SameBelow.fill (ha : SameBelow B v v') (hB : jpegFileBufSize ≤ B) :
    SameBelow B v.fill v'.fill := by
  obtain ⟨buf', rfl, hagree⟩ := ha
  rw [Vlc.fill, Vlc.fill]
  by_cases hmore : v.file.iPos < v.file.iSize ∧ v.iVLCSize < jpegFileBufSize - 64
  · rw [if_pos hmore, if_pos hmore]
    -- what is read ends in front of `B`
    have hlen := length_readRAM_le v.file (jpegFileBufSize - v.iVLCSize)
    generalize v.file.readRAM (jpegFileBufSize - v.iVLCSize) = r at hlen ⊢
    obtain ⟨data, file⟩ := r
    dsimp only at hlen ⊢
    obtain ⟨hsame, hbuf⟩ := jpegFilter_congr (p := v.iVLCSize) (n := data.length) (by omega)
      (by omega) v.iVLCSize v.ucFF (agree_store hagree v.iVLCSize data)
    generalize jpegFilter (Mem.store buf' v.iVLCSize data) _ _ _ _ = r' at hsame hbuf ⊢
    generalize jpegFilter (Mem.store v.ucFileBuf v.iVLCSize data) _ _ _ _ = r at hsame hbuf ⊢
    obtain ⟨b, n, ff⟩ := r
    obtain ⟨b', n', ff'⟩ := r'
    cases hsame
    exact ⟨b', rfl, hbuf⟩
  · rw [if_neg hmore, if_neg hmore]
    exact ⟨buf', rfl, hagree⟩

/-- `JPEGGetMoreData` does not look behind `B`. -/
theorem SameBelow.jpegGetMoreData (ha : SameBelow B v v') (hB : jpegFileBufSize ≤ B)
    (hsize : v.iVLCSize ≤ B) : SameBelow B v.jpegGetMoreData v'.jpegGetMoreData := by
  have hboth := (ha.moveDown hsize).fill hB
  obtain ⟨buf', rfl, hagree⟩ := ha
  rw [Vlc.jpegGetMoreData, Vlc.jpegGetMoreData]
  split
  · exact ⟨buf', rfl, hagree⟩
  · exact hboth

end

/-! ## The scan -/

/-- The next MCU, and what is done behind it; `none` for invalid data. -/
def mcuRound (p : ScanInfo) (s : ScanState) : Option ScanState :=
  let r := p.decodeBlocks (mcuBlocks p.ucSubSample p.ucNumComponents) s
  if r.2 then none else some (p.restart r.1).feed

/-- The state when MCU `n` begins. -/
def mcuState (p : ScanInfo) : Nat → ScanState → Option ScanState
  | 0, s => some s
  | n + 1, s => (mcuRound p s).bind (mcuState p n)

/-- The decoder is not behind the end of its data when one of the next `n` MCUs begins. -/
def DataLasts (p : ScanInfo) (n : Nat) (s : ScanState) : Prop :=
  ∀ k < n, ∀ s', mcuState p k s = some s' → s'.mcu.vlc.iVLCOff ≤ s'.mcu.vlc.iVLCSize

/-- A round that goes on has decoded its blocks. -/
theorem mcuRound_eq_some {p : ScanInfo} {s s' : ScanState} (h : mcuRound p s = some s') :
    ∃ s₁, p.decodeBlocks (mcuBlocks p.ucSubSample p.ucNumComponents) s = (s₁, false) ∧
      (p.restart s₁).feed = s' := by
  rw [mcuRound] at h
  generalize p.decodeBlocks _ s = r at h ⊢
  obtain ⟨s₁, err⟩ := r
  cases err with
  | false => exact ⟨s₁, rfl, Option.some.inj h⟩
  | true => cases h

/-- Behind the end of the data no more is read. -/
theorem feed_of_end {s : ScanState} (hend : s.mcu.vlc.iVLCSize < s.mcu.vlc.iVLCOff) :
    s.feed = s := by
  rw [ScanState.feed]
  split
  · rw [jpegGetMoreData_of_behind hend]
  · rfl

/-- Where an MCU begins: in front of `FILE_HIGHWATER`, or behind the end of the data. -/
structure AtMcu (v : Vlc) : Prop where
  synced : Synced v
  size_le : v.iVLCSize ≤ jpegFileBufSize
  off : v.iVLCOff < fileHighwater ∨ v.iVLCSize < v.iVLCOff

/-- More data is read in time, whatever has been decoded. -/
theorem atMcu_feed {s : ScanState} (hs : Synced s.mcu.vlc)
    (hsize : s.mcu.vlc.iVLCSize ≤ jpegFileBufSize) : AtMcu s.feed.mcu.vlc := by
  rw [ScanState.feed]
  generalize hv : s.mcu.vlc = v at hs hsize
  split
  · rename_i hoff
    by_cases hend : v.iVLCSize < v.iVLCOff
    · rw [jpegGetMoreData_of_behind hend]
      exact ⟨hs, hsize, .inr hend⟩
    · have hin := jpegGetMoreData_inBuffer (v := v) ⟨by omega, hsize⟩
      -- past `FILE_HIGHWATER` there is room for more
      have hasks : ¬ (v.iVLCSize - v.iVLCOff ≥ jpegFileBufSize - 64 ∨ v.iVLCSize < v.iVLCOff) := by
        simp only [fileHighwater, jpegFileBufSize] at *
        omega
      have hoff0 : v.iVLCOff ≠ 0 := by
        simp only [fileHighwater] at hoff
        omega
      have hmoved : v.jpegGetMoreData.iVLCOff = 0 ∧
          v.jpegGetMoreData.bb = { v.bb with pBuf := 0 } := by
        rw [Vlc.jpegGetMoreData, if_neg hasks, (fill_off_bb _).1, (fill_off_bb _).2, Vlc.moveDown,
          if_pos hoff0]
        exact ⟨rfl, rfl⟩
      refine ⟨⟨?_, ?_⟩, hin.size_le, .inl ?_⟩
      · rw [hmoved.1, hmoved.2]
      · rw [hmoved.2]
        exact hs.2
      · rw [hmoved.1]
        decide
  · rw [hv]
    exact ⟨hs, hsize, .inl (by omega)⟩

/-- A restart interval only moves the decoder on to the next byte. -/
theorem restart_vlc (p : ScanInfo) (s : ScanState) :
    (p.restart s).mcu.vlc = { s.mcu.vlc with bb := (p.restart s).mcu.vlc.bb } := by
  rw [ScanInfo.restart]
  split
  · split <;> rfl
  · rfl

/-- A restart marker leaves the read pointer. -/
theorem restart_pBuf (p : ScanInfo) (s : ScanState) :
    (p.restart s).mcu.vlc.bb.pBuf = s.mcu.vlc.bb.pBuf := by
  rw [ScanInfo.restart]
  split
  · split <;> rfl
  · rfl

/-- At a restart marker the decoder goes on at the next byte. -/
theorem synced_restart (p : ScanInfo) {s : ScanState} (hs : Synced s.mcu.vlc) :
    Synced (p.restart s).mcu.vlc := by
  rw [ScanInfo.restart]
  split
  · split
    · refine ⟨hs.1, ?_⟩
      -- the bits up to the byte are skipped
      have halign := align_toNat hs.2
      have hoff := hs.2
      dsimp only
      rw [halign]
      omega
    · exact hs
  · exact hs

/-- A restart marker does not look at the buffer. -/
theorem restart_scanWithBuf (p : ScanInfo) (s : ScanState) (buf' : Nat → UInt8) :
    p.restart (scanWithBuf s buf') = scanWithBuf (p.restart s) buf' := by
  rw [ScanInfo.restart, ScanInfo.restart]
  split
  · split
    · rw [if_pos (by assumption)]
      rfl
    · rw [if_neg (by assumption)]
      rfl
  · rfl

/-- Behind an MCU two states stay alike. -/
theorem feed_scanWithBuf {s : ScanState} {buf' : Nat → UInt8} {B : Nat}
    (hagree : ∀ a < B, buf' a = s.mcu.vlc.ucFileBuf a) (hB : jpegFileBufSize ≤ B)
    (hsize : s.mcu.vlc.iVLCSize ≤ B) :
    ∃ buf, (scanWithBuf s buf').feed = scanWithBuf s.feed buf ∧
      ∀ a < B, buf a = s.feed.mcu.vlc.ucFileBuf a := by
  have hbelow : SameBelow B s.mcu.vlc { s.mcu.vlc with ucFileBuf := buf' } := ⟨buf', rfl, hagree⟩
  obtain ⟨buf, hbuf, hagree'⟩ := hbelow.jpegGetMoreData hB hsize
  have hsame : (scanWithBuf s buf').mcu.vlc.iVLCOff = s.mcu.vlc.iVLCOff := rfl
  rw [ScanState.feed, ScanState.feed, hsame]
  by_cases hoff : s.mcu.vlc.iVLCOff ≥ fileHighwater
  · rw [if_pos hoff, if_pos hoff]
    refine ⟨buf, ?_, hagree'⟩
    simp only [scanWithBuf, withBuf, hbuf]
  · rw [if_neg hoff, if_neg hoff]
    exact ⟨buf', rfl, hagree⟩

/-- The scan starts at the beginning of the buffer. -/
theorem startScan_off (v : Vlc) (iBytesRead iOffset : Nat) :
    (v.startScan iBytesRead iOffset).iVLCOff = 0 := by
  rw [Vlc.startScan]
  generalize jpegFilter _ _ _ _ _ = r
  obtain ⟨buf, n, ff⟩ := r
  rcases getMoreData_zero (v := ⟨buf, 0, n, ff, v.bb, v.file⟩) rfl with ⟨hsame, -⟩ | hfill
  · exact congrArg Vlc.iVLCOff hsame
  · exact (congrArg Vlc.iVLCOff hfill).trans (fill_off_bb _).1

section

variable {p : ScanInfo} {h : HuffTables} {B : Nat}

/-- All MCUs, from two states on that are alike. -/
theorem scan_congr (hfit : h.used 2 = false ∧ h.used 3 = false)
    (hready : ∀ b ∈ mcuBlocks p.ucSubSample p.ucNumComponents, Ready (p.mcuTables b.2) h)
    (hB : jpegFileBufSize ≤ B)
    (hblocks : fileHighwater + 7 + 248 * (mcuBlocks p.ucSubSample p.ucNumComponents).length ≤ B)
    (n : Nat) {s : ScanState} {buf' : Nat → UInt8} (hat : AtMcu s.mcu.vlc)
    (hagree : ∀ a < B, buf' a = s.mcu.vlc.ucFileBuf a) (hlasts : DataLasts p n s) :
    p.scan n (scanWithBuf s buf') = p.scan n s := by
  induction n generalizing s buf' with
  | zero => rfl
  | succ n ih =>
    -- the MCU begins in front of `FILE_HIGHWATER`
    have hoff : s.mcu.vlc.iVLCOff < fileHighwater := by
      have hmore := hlasts 0 (Nat.succ_pos n) s rfl
      have hnear := hat.off
      omega
    have hpos : (bitPos s.mcu.vlc.bb +
        1983 * (mcuBlocks p.ucSubSample p.ucNumComponents).length) / 8 + 4 ≤ B := by
      have hsync := hat.synced
      rw [Synced] at hsync
      rw [bitPos]
      generalize (mcuBlocks p.ucSubSample p.ucNumComponents).length = k at hblocks ⊢
      generalize s.mcu.vlc.bb.ulBitOff.toNat = o at hsync ⊢
      simp only [fileHighwater] at hoff hblocks
      omega
    have hwithin := decodeBlocks_within hfit hready s
    have hforward := decodeBlocks_forward p (mcuBlocks p.ucSubSample p.ucNumComponents) s
    have hround : ∀ k, mcuState p (k + 1) s = (mcuRound p s).bind (mcuState p k) := fun _ => rfl
    rw [ScanInfo.scan, ScanInfo.scan, decodeBlocks_congr hfit hready hagree hpos]
    rw [mcuRound] at hround
    generalize p.decodeBlocks (mcuBlocks p.ucSubSample p.ucNumComponents) s = r
      at hwithin hforward hround ⊢
    obtain ⟨s₁, err⟩ := r
    dsimp only at hwithin hforward hround ⊢
    cases err with
    | true => rfl
    | false =>
      -- the buffer is only written between two MCUs, with the same bytes in both
      have hbuf : s₁.mcu.vlc.ucFileBuf = s.mcu.vlc.ucFileBuf := by rw [hforward.vlc]
      have hsize₁ : s₁.mcu.vlc.iVLCSize = s.mcu.vlc.iVLCSize := by rw [hforward.vlc]
      have hsync₂ := synced_restart p
        (show Synced s₁.mcu.vlc from
          ⟨hforward.off rfl hat.synced.1, hwithin.bitOff rfl hat.synced.2⟩)
      have hsize := hat.size_le
      have hbuf₂ : (p.restart s₁).mcu.vlc.ucFileBuf = s₁.mcu.vlc.ucFileBuf := by rw [restart_vlc]
      have hsize₂ : (p.restart s₁).mcu.vlc.iVLCSize = s₁.mcu.vlc.iVLCSize := by rw [restart_vlc]
      rw [restart_scanWithBuf]
      obtain ⟨buf, hfeed, hagree'⟩ := feed_scanWithBuf (s := p.restart s₁) (B := B)
        (by rwa [hbuf₂, hbuf]) hB (by omega)
      have hnext := ih (atMcu_feed hsync₂ (by omega)) hagree' fun k hk s' hs' =>
        hlasts (k + 1) (Nat.succ_lt_succ hk) s' (by rw [hround]; exact hs')
      simp only [Bool.false_eq_true, if_false, hfeed, hnext]
      rfl

/-- With tables that hold prefix codes and no DC tables 2 and 3, whatever the data is: memory behind
    the first `B` bytes of the buffer has no influence on what is decoded, as long as the decoder is
    not behind the end of its data. `B` has to be the size of `ucFileBuf` for up to two blocks in an
    MCU, and somewhat more for more blocks, as nothing stops the decoder within an MCU. -/
theorem scan_reads_bounded {v : Vlc} {iBytesRead iOffset n : Nat} {buf' : Nat → UInt8}
    (hfit : h.used 2 = false ∧ h.used 3 = false)
    (hready : ∀ b ∈ mcuBlocks p.ucSubSample p.ucNumComponents, Ready (p.mcuTables b.2) h)
    (hff : v.ucFF = false) (hsize : iBytesRead ≤ jpegFileBufSize) (hB : jpegFileBufSize ≤ B)
    (hblocks : fileHighwater + 7 + 248 * (mcuBlocks p.ucSubSample p.ucNumComponents).length ≤ B)
    (hagree : ∀ a < B, buf' a = (v.startScan iBytesRead iOffset).ucFileBuf a)
    (sMCUs : Nat → Int16) (ucMaxACCol ucMaxACRow : UInt8)
    (hlasts : DataLasts p n
      (p.start (v.startScan iBytesRead iOffset) sMCUs ucMaxACCol ucMaxACRow)) :
    p.scan n (p.start { v.startScan iBytesRead iOffset with ucFileBuf := buf' } sMCUs ucMaxACCol
        ucMaxACRow) =
      p.scan n (p.start (v.startScan iBytesRead iOffset) sMCUs ucMaxACCol ucMaxACRow) := by
  have hin := (startScan_spec iOffset hff hsize).1
  have hzero := startScan_off v iBytesRead iOffset
  generalize v.startScan iBytesRead iOffset = v₁ at hagree hlasts hin hzero ⊢
  -- the first word is read when the scan starts
  have hword : motoLong buf' 0 = motoLong v₁.ucFileBuf 0 :=
    motoLong_congr hagree (by simp only [jpegFileBufSize] at hB; omega)
  have hstart : p.start { v₁ with ucFileBuf := buf' } sMCUs ucMaxACCol ucMaxACRow =
      scanWithBuf (p.start v₁ sMCUs ucMaxACCol ucMaxACRow) buf' := by
    simp only [ScanInfo.start, scanWithBuf, withBuf, hword]
  rw [hstart]
  have hnear : v₁.iVLCOff < fileHighwater := Nat.lt_of_le_of_lt (Nat.le_of_eq hzero) (by decide)
  exact scan_congr hfit hready hB hblocks n ⟨⟨hzero, Nat.zero_le 32⟩, hin.size_le, .inl hnear⟩
    hagree hlasts

/-- Once an MCU has taken the decoder behind the end of its data, it never gets more of it: whatever
    the tables are and whatever there is left in the file, the buffer stays as it is, and the
    decoder goes on behind it. -/
theorem never_fed_behind_end (n : Nat) {s s' : ScanState}
    (hs : s.mcu.vlc.iVLCOff = s.mcu.vlc.bb.pBuf) (hend : s.mcu.vlc.iVLCSize < s.mcu.vlc.iVLCOff)
    (hrun : mcuState p n s = some s') :
    s.mcu.vlc.iVLCOff ≤ s'.mcu.vlc.iVLCOff ∧ s'.mcu.vlc.iVLCSize = s.mcu.vlc.iVLCSize ∧
      s'.mcu.vlc.ucFileBuf = s.mcu.vlc.ucFileBuf ∧ s'.mcu.vlc.file = s.mcu.vlc.file := by
  induction n generalizing s with
  | zero =>
    cases hrun
    exact ⟨Nat.le_refl _, rfl, rfl, rfl⟩
  | succ n ih =>
    obtain ⟨s₂, hround, hrest⟩ := Option.bind_eq_some_iff.mp hrun
    obtain ⟨s₁, hblocks, rfl⟩ := mcuRound_eq_some hround
    have hforward := decodeBlocks_forward p (mcuBlocks p.ucSubSample p.ucNumComponents) s
    rw [hblocks] at hforward
    -- the blocks leave the decoder at or behind where it was
    have hsync₁ := hforward.off rfl hs
    have hrestart := restart_vlc p s₁
    have hpBuf := restart_pBuf p s₁
    have hlow := hforward.low
    have hoff₁ : s.mcu.vlc.iVLCOff ≤ s₁.mcu.vlc.iVLCOff := by rwa [hs, hsync₁]
    have hsize₁ : s₁.mcu.vlc.iVLCSize = s.mcu.vlc.iVLCSize := by rw [hforward.vlc]
    have hbuf₁ : s₁.mcu.vlc.ucFileBuf = s.mcu.vlc.ucFileBuf := by rw [hforward.vlc]
    have hfile₁ : s₁.mcu.vlc.file = s.mcu.vlc.file := by rw [hforward.vlc]
    have hoff₂ : (p.restart s₁).mcu.vlc.iVLCOff = s₁.mcu.vlc.iVLCOff := by rw [hrestart]
    have hend₂ : (p.restart s₁).mcu.vlc.iVLCSize < (p.restart s₁).mcu.vlc.iVLCOff := by
      rw [hrestart]
      simp only
      omega
    -- `JPEGGetMoreData` gives up at once
    rw [feed_of_end hend₂] at hrest
    obtain ⟨hoff, hsize, hbuf, hfile⟩ := ih (by rw [hoff₂, hsync₁, hpBuf]) hend₂ hrest
    rw [hrestart] at hoff hsize hbuf hfile
    exact ⟨Nat.le_trans hoff₁ hoff, hsize.trans hsize₁, hbuf.trans hbuf₁, hfile.trans hfile₁⟩

end

/-- The MCUs of the gray picture, with FF behind the buffer. -/
theorem scan_reads_bounded_gray :
    grayScan.scan 3 (grayScan.start { grayData.startScan 10 0 with
        ucFileBuf := fun a => if a < 2048 then (grayData.startScan 10 0).ucFileBuf a else 0xff }
        (fun _ => 0) 0 0) =
      grayScan.scan 3 (grayScan.start (grayData.startScan 10 0) (fun _ => 0) 0 0) := by
  have hlasts : ∀ k < 3, (mcuState grayScan k
      (grayScan.start (grayData.startScan 10 0) (fun _ => 0) 0 0)).all
        (fun s => s.mcu.vlc.iVLCOff ≤ s.mcu.vlc.iVLCSize) = true := by decide +kernel
  refine scan_reads_bounded (B := 2048) (by decide) decodes_grayScan.ready rfl (by decide)
    (by decide) (by decide) (fun a ha => if_pos ha) _ _ _ fun k hk s hs => ?_
  have hk := hlasts k hk
  rw [hs] at hk
  simpa using hk

/-- The decoder is at byte 1 of a buffer without data, but the old bytes are valid codes, and there
    is more data in the file. -/
def behindEnd : ScanState where
  mcu :=
    { vlc := ⟨fun _ => 0x28, 1, 0, false, ⟨1, 0x28282828, 0⟩, ⟨0, 10, fun _ => 0⟩⟩
      sMCUs := fun _ => 0
      ucMaxACCol := 0
      ucMaxACRow := 0 }
  iDCPred := fun _ => 0
  iResCount := 2

/-- Two more MCUs behind the end of the data. -/
theorem never_fed_behind_end_twice : ∃ s, mcuState grayScan 2 behindEnd = some s ∧
    1 ≤ s.mcu.vlc.iVLCOff ∧ s.mcu.vlc.iVLCSize = 0 ∧ s.mcu.vlc.file.iPos = 0 := by
  have hsome : (mcuState grayScan 2 behindEnd).isSome = true := by decide +kernel
  obtain ⟨s, hs⟩ := Option.isSome_iff_exists.mp hsome
  obtain ⟨hoff, hsize, -, hfile⟩ := never_fed_behind_end 2 (s := behindEnd) rfl (by decide) hs
  exact ⟨s, hs, hoff, hsize, congrArg JpegFile.iPos hfile⟩

end Ivy.Spec
