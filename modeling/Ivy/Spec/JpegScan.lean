import Ivy.Spec.JpegPixels
import Ivy.Spec.JpegWindow

/-!
# A scan is decoded as it was coded

The coder of the standard puts the blocks of an MCU one behind the other, and the MCUs too; at the
end of a restart interval it fills up the last byte and forgets the predictors. The decoder finds
every block, across the markers and the refills of its buffer, if the MCUs are short enough.
-/

namespace Ivy.Spec

open Ivy.Native Ivy.Bits

/-! ## The coder -/

/-- The blocks of an MCU, each a list of 64 coefficients: the bits, and the predictors behind it. -/
def encodeMcu (p : ScanInfo) (h : HuffTables) :
    List (Nat × Nat) → (Nat → Int) → List (List Int) → Option (List Bool × (Nat → Int))
  | [], pred, [] => some ([], pred)
  | (_, comp) :: blocks, pred, (dc :: acs) :: mcu =>
    if acs.length = 63 then
      (encodeBlock (dcCodes (p.mcuTables comp) h) (acCodes (p.mcuTables comp) h)
        (dc - pred comp) acs).bind fun bits =>
          (encodeMcu p h blocks (fun c => if c = comp then dc else pred c) mcu).map fun rest =>
            (bits ++ rest.1, rest.2)
    else none
  | _, _, _ => none

/-- The MCUs of a scan: the bytes of its restart intervals. An MCU may have `8 * M` bits. `count` is
    the number of MCUs up to the next restart, and `bits` is what has been coded of the interval. -/
def encodeScan (p : ScanInfo) (h : HuffTables) (M : Nat) :
    List (List (List Int)) → Int → (Nat → Int) → List Bool → Option (List (List UInt8))
  | [], _, _, bits => some (if bits = [] then [] else [toBytes bits])
  | mcu :: mcus, count, pred, bits =>
    (encodeMcu p h (mcuBlocks p.ucSubSample p.ucNumComponents) pred mcu).bind fun x =>
      if x.1.length ≤ 8 * M then
        if p.iResInterval ≠ 0 ∧ count = 1 then
          (encodeScan p h M mcus p.iResInterval (fun _ => 0) []).map fun rest =>
            toBytes (bits ++ x.1) :: rest
        else encodeScan p h M mcus (count - 1) x.2 (bits ++ x.1)
      else none

/-- The pixels of an MCU are those of its blocks. -/
def McuPixels (p : ScanInfo) (blocks : List (Nat × Nat)) (mcu : List (List Int))
    (sMCUs : Nat → Int16) : Prop :=
  List.Forall₂ (fun block coefs =>
    Mem.load sMCUs block.1 32 = blockPixels p block.2 coefs) blocks mcu

/-- Blocks that lie one behind the other. -/
def Separate (blocks : List (Nat × Nat)) : Prop :=
  blocks.Pairwise fun b c => b.1 + 64 ≤ c.1

/-! ## One MCU -/

/-- An MCU has been decoded, and the decoder is `len` bits further. -/
structure McuDecoded (p : ScanInfo) (E : Nat) (s : ScanState) (blocks : List (Nat × Nat))
    (mcu : List (List Int)) (pred : Nat → Int) (len : Nat) (s' : ScanState) : Prop where
  vlc : s'.mcu.vlc = { s.mcu.vlc with bb := s'.mcu.vlc.bb, iVLCOff := s'.mcu.vlc.bb.pBuf }
  fresh : Fresh s.mcu.vlc.ucFileBuf s'.mcu.vlc.bb E
  pos : bitPos s'.mcu.vlc.bb = bitPos s.mcu.vlc.bb + len
  pred : s'.iDCPred = fun c => Int32.ofInt (pred c)
  count : s'.iResCount = s.iResCount
  pixels : McuPixels p blocks mcu s'.mcu.sMCUs
  frame : ∀ a, (∀ b ∈ blocks, a < b.1 ∨ b.1 + 64 ≤ a) → s'.mcu.sMCUs a = s.mcu.sMCUs a

section

variable {p : ScanInfo} {h : HuffTables} {E : Nat}

/-- One block of an MCU. -/
theorem decodeBlock_coded {s : ScanState} (iMCU : Nat) {comp : Nat} {pred : Nat → Int} {dc : Int}
    {acs : List Int} {bits : List Bool} (hr : Ready (p.mcuTables comp) h)
    (hfull : (p.mcuTables comp).reduced = false) (hacs : acs.length = 63)
    (henc : encodeBlock (dcCodes (p.mcuTables comp) h) (acCodes (p.mcuTables comp) h)
      (dc - pred comp) acs = some bits)
    (hpred : s.iDCPred = fun c => Int32.ofInt (pred c))
    (hfresh : Fresh s.mcu.vlc.ucFileBuf s.mcu.vlc.bb E)
    (hE : bitPos s.mcu.vlc.bb + bits.length ≤ E)
    (hbits : Holds s.mcu.vlc.ucFileBuf (bitPos s.mcu.vlc.bb) bits) :
    ∃ s', p.decodeBlock (iMCU, comp) s = (s', false) ∧
      McuDecoded p E s [(iMCU, comp)] [dc :: acs] (fun c => if c = comp then dc else pred c)
        bits.length s' := by
  -- the coefficients first, then their pixels in the same place
  obtain ⟨m, hm, hd⟩ := blockDecoded iMCU (pred comp) hr hfull hacs henc hfresh hE hbits
  -- the coder has coded the difference to the predictor
  rw [show pred comp + (dc - pred comp) = dc by omega] at hm hd
  obtain ⟨hpix, hframe⟩ :=
    reconstruct_holdsBlock p comp (show (dc :: acs).length = 64 by simpa) hd.holds
  refine ⟨{ s with
    mcu := { m with
      sMCUs := p.reconstruct iMCU comp m.ucMaxACCol m.ucMaxACRow (Int32.ofInt dc) m.sMCUs }
    iDCPred := fun c => if c = comp then Int32.ofInt dc else s.iDCPred c }, ?_, ?_⟩
  · rw [ScanInfo.decodeBlock]
    simp only [hpred, hm]
    rfl
  · refine ⟨hd.vlc, hd.fresh, hd.pos, ?_, rfl, .cons hpix .nil, fun a ha => ?_⟩
    · funext c
      simp only [hpred]
      split <;> rfl
    · have ha := ha (iMCU, comp) List.mem_cons_self
      exact (hframe a ha).trans (hd.frame a ha)

/-- The blocks of an MCU, one after the other. A block is not touched by those behind it. -/
theorem decodeBlocks_coded {blocks : List (Nat × Nat)} {mcu : List (List Int)} {s : ScanState}
    {pred pred' : Nat → Int} {bits : List Bool}
    (hr : ∀ b ∈ blocks, Ready (p.mcuTables b.2) h)
    (hfull : ∀ b ∈ blocks, (p.mcuTables b.2).reduced = false) (hsep : Separate blocks)
    (henc : encodeMcu p h blocks pred mcu = some (bits, pred'))
    (hoff : s.mcu.vlc.iVLCOff = s.mcu.vlc.bb.pBuf)
    (hpred : s.iDCPred = fun c => Int32.ofInt (pred c))
    (hfresh : Fresh s.mcu.vlc.ucFileBuf s.mcu.vlc.bb E)
    (hE : bitPos s.mcu.vlc.bb + bits.length ≤ E)
    (hbits : Holds s.mcu.vlc.ucFileBuf (bitPos s.mcu.vlc.bb) bits) :
    ∃ s', p.decodeBlocks blocks s = (s', false) ∧
      McuDecoded p E s blocks mcu pred' bits.length s' := by
  fun_induction encodeMcu p h blocks pred mcu generalizing s bits pred' with
  | case1 pred =>
    cases henc
    refine ⟨s, rfl, ?_, hfresh, rfl, hpred, rfl, .nil, fun _ _ => rfl⟩
    rw [← hoff]
  | case2 iMCU comp blocks pred dc acs mcu hacs ih =>
    obtain ⟨bits₁, henc₁, henc⟩ := Option.bind_eq_some_iff.mp henc
    obtain ⟨⟨bits₂, pred₂⟩, henc₂, heq⟩ := Option.map_eq_some_iff.mp henc
    cases heq
    simp only [List.length_append] at hE
    obtain ⟨hbits₁, hbits₂⟩ := holds_append.mp hbits
    obtain ⟨s₁, hs₁, hd₁⟩ := decodeBlock_coded iMCU (hr _ List.mem_cons_self)
      (hfull _ List.mem_cons_self) hacs henc₁ hpred hfresh (by omega) hbits₁
    have hbuf : s₁.mcu.vlc.ucFileBuf = s.mcu.vlc.ucFileBuf := by rw [hd₁.vlc]
    rw [← hd₁.pos, ← hbuf] at hbits₂
    -- the rest of the MCU, from where the first block has ended
    obtain ⟨hfirst, hsep⟩ := List.pairwise_cons.mp hsep
    obtain ⟨s₂, hs₂, hd₂⟩ := ih (fun b hb => hr b (List.mem_cons_of_mem _ hb))
      (fun b hb => hfull b (List.mem_cons_of_mem _ hb)) hsep henc₂ (by rw [hd₁.vlc]) hd₁.pred
      (by rw [hbuf]; exact hd₁.fresh) (by rw [hd₁.pos]; omega) hbits₂
    refine ⟨s₂, ?_, ?_⟩
    · rw [ScanInfo.decodeBlocks, hs₁]
      simp only [hs₂]
      rfl
    · refine ⟨?_, hbuf ▸ hd₂.fresh, ?_, hd₂.pred, hd₂.count.trans hd₁.count,
        .cons ?_ hd₂.pixels, fun a ha => ?_⟩
      · rw [hd₂.vlc, hd₁.vlc]
      · rw [hd₂.pos, hd₁.pos, List.length_append, Nat.add_assoc]
      · -- the first block lies in front of the others
        cases hd₁.pixels with
        | cons hpix _ =>
          rw [← hpix]
          refine Mem.load_congr fun a hlow hhigh => hd₂.frame a fun b hb => .inl ?_
          have := hfirst b hb
          omega
      · rw [hd₂.frame a fun b hb => ha b (List.mem_cons_of_mem _ hb),
          hd₁.frame a fun b hb => ha b (by simp_all)]
  | case3 => cases henc
  | case4 => cases henc

end

/-! ## From MCU to MCU -/

/-- The decoder is at bit `P` of the data, with the predictors of the coder. -/
structure ScanAt (p : ScanInfo) (R lim : Nat) (D : List UInt8) (P : Nat) (count : Int)
    (pred : Nat → Int) (s : ScanState) : Prop where
  window : Window D s.mcu.vlc P
  filled : Filled R lim s.mcu.vlc
  pred : s.iDCPred = fun c => Int32.ofInt (pred c)
  count : p.iResInterval ≠ 0 → s.iResCount = count

/-- The data codes the MCUs from bit `P` on. -/
def CodedFrom (p : ScanInfo) (h : HuffTables) (M : Nat) (D : List UInt8) :
    List (List (List Int)) → Nat → Int → (Nat → Int) → Prop
  | [], _, _, _ => True
  | mcu :: mcus, P, count, pred =>
    ∃ bits pred', encodeMcu p h (mcuBlocks p.ucSubSample p.ucNumComponents) pred mcu =
        some (bits, pred') ∧ bits.length ≤ 8 * M ∧ Holds (bytesAt D) P bits ∧
      P + bits.length ≤ 8 * D.length ∧
      if p.iResInterval ≠ 0 ∧ count = 1 then
        CodedFrom p h M D mcus ((P + bits.length + 7) / 8 * 8) p.iResInterval fun _ => 0
      else CodedFrom p h M D mcus (P + bits.length) (count - 1) pred'

/-- Only blocks of 64 coefficients are coded, -/
theorem length_of_encodeMcu {p : ScanInfo} {h : HuffTables} {blocks : List (Nat × Nat)}
    {pred : Nat → Int} {mcu : List (List Int)} {x : List Bool × (Nat → Int)}
    (henc : encodeMcu p h blocks pred mcu = some x) : ∀ coefs ∈ mcu, coefs.length = 64 := by
  fun_induction encodeMcu p h blocks pred mcu generalizing x with
  | case1 => simp
  | case2 iMCU comp blocks pred dc acs mcu hacs ih =>
    obtain ⟨bits, -, henc⟩ := Option.bind_eq_some_iff.mp henc
    obtain ⟨rest, hrest, -⟩ := Option.map_eq_some_iff.mp henc
    intro coefs hmem
    rcases List.mem_cons.mp hmem with rfl | hmem
    · rw [List.length_cons, hacs]
    · exact ih hrest coefs hmem
  | case3 => cases henc
  | case4 => cases henc

/-- in all MCUs. -/
theorem CodedFrom.length_eq {p : ScanInfo} {h : HuffTables} {M P : Nat} {D : List UInt8}
    {mcus : List (List (List Int))} {count : Int} {pred : Nat → Int}
    (hcoded : CodedFrom p h M D mcus P count pred) :
    ∀ mcu ∈ mcus, ∀ coefs ∈ mcu, coefs.length = 64 := by
  induction mcus generalizing P count pred with
  | nil => simp
  | cons mcu mcus ih =>
    obtain ⟨bits, pred', henc, -, -, -, hrest⟩ := hcoded
    intro m hmem
    rcases List.mem_cons.mp hmem with rfl | hmem
    · exact length_of_encodeMcu henc
    · split at hrest
      · exact ih hrest m hmem
      · exact ih hrest m hmem

/-- What the decoder needs to be able to decode the scan. -/
structure Decodes (p : ScanInfo) (h : HuffTables) : Prop where
  ready : ∀ b ∈ mcuBlocks p.ucSubSample p.ucNumComponents, Ready (p.mcuTables b.2) h
  subSample : p.ucSubSample ∈ [0x00, 0x01, 0x11, 0x12, 0x21, 0x22]
  scale : p.scale = .full ∨ p.scale = .half

/-- The blocks of an MCU do not overlap. -/
theorem separate_mcuBlocks {ucSubSample ucNumComponents : UInt8}
    (hsub : ucSubSample ∈ [0x00, 0x01, 0x11, 0x12, 0x21, 0x22]) :
    Separate (mcuBlocks ucSubSample ucNumComponents) := by
  simp only [List.mem_cons, List.not_mem_nil, or_false] at hsub
  rcases hsub with rfl | rfl | rfl | rfl | rfl | rfl <;>
    by_cases hcolor : ucNumComponents = 3 <;> simp [mcuBlocks, Separate, chromaBlocks, hcolor]

section

variable {p : ScanInfo} {h : HuffTables} {R M lim P : Nat} {D : List UInt8} {count : Int}
  {pred : Nat → Int} {s : ScanState}

/-- The full size is decoded. -/
theorem Decodes.reduced (hp : Decodes p h) (comp : Nat) : (p.mcuTables comp).reduced = false := by
  rcases hp.scale with hs | hs <;> simp [ScanInfo.mcuTables, hs]

/-- An MCU that begins in front of `FILE_HIGHWATER`. -/
theorem ScanAt.mcu (hp : Decodes p h) (hs : ScanAt p R (fileHighwater - 1) D P count pred s)
    (hlimit : fileHighwater + M + R + 7 ≤ jpegFileBufSize - 64) {mcu : List (List Int)}
    {bits : List Bool} {pred' : Nat → Int}
    (henc : encodeMcu p h (mcuBlocks p.ucSubSample p.ucNumComponents) pred mcu =
      some (bits, pred')) (hlen : bits.length ≤ 8 * M) (hbits : Holds (bytesAt D) P bits)
    (hD : P + bits.length ≤ 8 * D.length) :
    ∃ s', p.decodeBlocks (mcuBlocks p.ucSubSample p.ucNumComponents) s = (s', false) ∧
      McuPixels p (mcuBlocks p.ucSubSample p.ucNumComponents) mcu s'.mcu.sMCUs ∧
      ScanAt p R (fileHighwater - 1 + 4 + M) D (P + bits.length) count pred' s' := by
  -- the bits of the MCU are in the buffer when it begins
  have hroom := hs.window.room hs.filled hlimit hlen hD
  obtain ⟨s', hs', hd⟩ := decodeBlocks_coded hp.ready (fun b _ => hp.reduced b.2)
    (separate_mcuBlocks hp.subSample) henc hs.window.off hs.pred hs.window.fresh hroom
    (hs.window.holds hroom hbits)
  refine ⟨s', hs', hd.pixels, ?_, ?_, hd.pred, fun hi => hd.count.trans (hs.count hi)⟩
  · rw [hd.vlc]
    exact hs.window.advance hd.fresh hd.pos hroom
  · rw [hd.vlc]
    exact hs.filled.advance hs.window hd.pos hlen

/-- The bits up to the next byte are skipped. -/
theorem align_toNat {off : UInt32} (h : off.toNat ≤ 32) :
    (if off &&& 7 ≠ 0 then off + (8 - (off &&& 7)) else off).toNat = (off.toNat + 7) / 8 * 8 := by
  -- the bits of the last byte that were read
  have hlow : (off &&& 7).toNat = off.toNat % 8 := by
    rw [UInt32.toNat_and, show UInt32.toNat 7 = 2 ^ 3 - 1 from rfl, Nat.and_two_pow_sub_one_eq_mod]
  split
  · rename_i hne
    have hne' : (off &&& 7).toNat ≠ 0 := fun h0 => hne (UInt32.toNat_inj.mp h0)
    have hsub : (8 - (off &&& 7)).toNat = 8 - off.toNat % 8 := by
      rw [UInt32.toNat_sub_of_le _ _ (UInt32.le_iff_toNat_le.mpr (by
        simp only [hlow, UInt32.reduceToNat]
        omega)), hlow]
      rfl
    rw [UInt32.toNat_add, hsub]
    omega
  · rename_i heq
    have h0 : (off &&& 7).toNat = 0 := congrArg UInt32.toNat (of_not_not heq)
    omega

/-- The end of a restart interval. -/
theorem ScanAt.restart_end (hs : ScanAt p R lim D P count pred s)
    (hend : p.iResInterval ≠ 0 ∧ count = 1) :
    ScanAt p R lim D ((P + 7) / 8 * 8) p.iResInterval (fun _ => 0) (p.restart s) := by
  rw [ScanInfo.restart, if_pos hend.1, if_pos (by rw [hs.count hend.1, hend.2]; rfl)]
  -- the rest of the byte is padding, and the next interval begins at a byte
  exact ⟨hs.window.align (align_toNat hs.window.fresh.off_le), ⟨hs.filled.sparse, hs.filled.full⟩,
    rfl, fun _ => rfl⟩

/-- Within a restart interval. -/
theorem ScanAt.restart_within (hs : ScanAt p R lim D P count pred s)
    (hend : ¬ (p.iResInterval ≠ 0 ∧ count = 1)) :
    ScanAt p R lim D P (count - 1) pred (p.restart s) := by
  rw [ScanInfo.restart]
  split
  · rename_i hi
    have hcount := hs.count hi
    -- the count is not at its end
    rw [if_neg (by omega)]
    exact ⟨hs.window, hs.filled, hs.pred, fun _ => by rw [← hcount]⟩
  · rename_i hi
    exact ⟨hs.window, hs.filled, hs.pred, fun h => absurd h hi⟩

/-- Behind an MCU the decoder looks for more data. -/
theorem ScanAt.feed (hs : ScanAt p R lim D P count pred s)
    (hlim : lim + 4 + R ≤ jpegFileBufSize - 64) :
    ScanAt p R (fileHighwater - 1) D P count pred s.feed := by
  rw [ScanState.feed]
  split
  · rename_i hoff
    -- a refill: the data ahead stays the same
    obtain ⟨hw, hf⟩ := getMoreData_window hs.window hs.filled hoff hlim
    exact ⟨hw, hf, hs.pred, hs.count⟩
  · exact ⟨hs.window, ⟨hs.filled.sparse, hs.filled.full.imp id fun hfull => ⟨by omega, hfull.2⟩⟩,
      hs.pred, hs.count⟩

/-- All MCUs, from a state on in which the decoder is where the coder has put them. -/
theorem scan_coded (hp : Decodes p h)
    (hlimit : fileHighwater + M + R + 7 ≤ jpegFileBufSize - 64) {mcus : List (List (List Int))}
    (hcoded : CodedFrom p h M D mcus P count pred)
    (hs : ScanAt p R (fileHighwater - 1) D P count pred s) :
    ∃ out, p.scan mcus.length s = (out, false) ∧
      List.Forall₂ (McuPixels p (mcuBlocks p.ucSubSample p.ucNumComponents)) mcus out := by
  induction mcus generalizing P count pred s with
  | nil => exact ⟨[], rfl, .nil⟩
  | cons mcu mcus ih =>
    obtain ⟨bits, pred', henc, hlen, hbits, hD, hrest⟩ := hcoded
    -- one MCU, then the restart marker and more data
    obtain ⟨s', hs', hpix, hat⟩ := hs.mcu hp hlimit henc hlen hbits hD
    -- an MCU that begins in front of `FILE_HIGHWATER` ends in front of the data's end
    have hlim : fileHighwater - 1 + 4 + M + 4 + R ≤ jpegFileBufSize - 64 := by
      simp only [fileHighwater] at hlimit ⊢
      omega
    obtain ⟨out, hout, hpixels⟩ : ∃ out, p.scan mcus.length (p.restart s').feed = (out, false) ∧
        List.Forall₂ (McuPixels p (mcuBlocks p.ucSubSample p.ucNumComponents)) mcus out := by
      split at hrest
      · rename_i hend
        exact ih hrest ((hat.restart_end hend).feed hlim)
      · rename_i hend
        exact ih hrest ((hat.restart_within hend).feed hlim)
    refine ⟨s'.mcu.sMCUs :: out, ?_, .cons hpix hpixels⟩
    rw [List.length_cons, ScanInfo.scan, hs']
    simp only [hout]
    rfl

/-! ## The coder's data -/

/-- The bytes of a part of the data. -/
theorem bytesAt_append {pre l suf : List UInt8} {i : Nat} {x : UInt8} (hx : l[i]? = some x) :
    bytesAt (pre ++ (l ++ suf)) (pre.length + i) = x := by
  have hlt : i < l.length := (List.getElem?_eq_some_iff.mp hx).1
  rw [bytesAt, List.getElem?_append_right (by omega), Nat.add_sub_cancel_left,
    List.getElem?_append_left hlt, hx]
  rfl

/-- The bits of an interval are where its bytes are. -/
theorem holds_bytesAt (pre suf : List UInt8) (bits : List Bool) :
    Holds (bytesAt (pre ++ (toBytes bits ++ suf))) (8 * pre.length) bits :=
  holds_toBytes fun _ _ => bytesAt_append

/-- What the coder has put out codes the MCUs, wherever it stands. -/
theorem encodeScan_coded {mcus : List (List (List Int))} {bits : List Bool}
    {intervals : List (List UInt8)}
    (henc : encodeScan p h M mcus count pred bits = some intervals) (pre : List UInt8)
    {suf : List UInt8} (hD : D = pre ++ (intervals.flatten ++ suf)) :
    Holds (bytesAt D) (8 * pre.length) bits ∧
      8 * pre.length + bits.length ≤ 8 * D.length ∧
      CodedFrom p h M D mcus (8 * pre.length + bits.length) count pred := by
  induction mcus generalizing count pred bits intervals pre with
  | nil =>
    -- the last interval ends with the scan
    have hflat : intervals.flatten = toBytes bits := by
      cases henc
      split
      · rename_i hnil
        rw [hnil]
        rfl
      · simp
    rw [hflat] at hD
    subst hD
    refine ⟨holds_bytesAt _ _ _, ?_, trivial⟩
    simp only [List.length_append, length_toBytes]
    omega
  | cons mcu mcus ih =>
    obtain ⟨⟨bits₁, pred₁⟩, hmcu, henc⟩ := Option.bind_eq_some_iff.mp henc
    dsimp only at henc
    split at henc
    · rename_i hlen
      split at henc
      · -- the interval ends with the MCU
        rename_i hend
        obtain ⟨rest, hrest, rfl⟩ := Option.map_eq_some_iff.mp henc
        rw [List.flatten_cons, List.append_assoc] at hD
        obtain ⟨-, hlen', hcoded⟩ := ih hrest (pre ++ toBytes (bits ++ bits₁))
          (by rw [hD, List.append_assoc])
        have hbits := holds_bytesAt pre (rest.flatten ++ suf) (bits ++ bits₁)
        rw [← hD] at hbits
        obtain ⟨hold, hnew⟩ := holds_append.mp hbits
        simp only [List.length_append, length_toBytes, List.length_nil] at hlen' hcoded
        refine ⟨hold, by omega, bits₁, pred₁, hmcu, hlen, hnew, by omega, ?_⟩
        rw [if_pos hend]
        -- the padding of the interval up to the next byte
        convert hcoded using 1
        omega
      · rename_i hend
        -- the MCU goes on with the bits of the interval
        obtain ⟨hbits, hlen', hcoded⟩ := ih henc pre hD
        obtain ⟨hold, hnew⟩ := holds_append.mp hbits
        rw [List.length_append, ← Nat.add_assoc] at hlen' hcoded
        refine ⟨hold, by omega, bits₁, pred₁, hmcu, hlen, hnew, hlen', ?_⟩
        rw [if_neg hend]
        exact hcoded
    · cases henc

end

/-- A file that contains the intervals of a scan with a marker behind each of them, at the time when
    `iBytesRead` bytes of it are in the buffer and the scan begins at `iOffset`. The limit for the
    length of an MCU is what is left between `FILE_HIGHWATER` and the end of the buffer, less the
    bytes that the filter may remove when the buffer is filled. -/
structure CodedFile (p : ScanInfo) (h : HuffTables) (M R : Nat) (mcus : List (List (List Int)))
    (intervals : List (List UInt8 × UInt8)) (rest : List UInt8) (v : Vlc)
    (iBytesRead iOffset : Nat) : Prop where
  coded : encodeScan p h M mcus p.iResInterval (fun _ => 0) [] = some (intervals.map Prod.fst)
  marker : ∀ x ∈ intervals, x.2 ≠ 0
  file : Mem.load v.ucFileBuf iOffset (iBytesRead - iOffset) ++ fileRest v.file =
    marked intervals ++ rest
  ucFF : v.ucFF = false
  size_le : iBytesRead ≤ jpegFileBufSize
  sparse : Sparse R (marked intervals ++ rest)
  limit : fileHighwater + M + R + 7 ≤ jpegFileBufSize - 64

section

variable {p : ScanInfo} {h : HuffTables} {M R : Nat} {mcus : List (List (List Int))}
  {intervals : List (List UInt8 × UInt8)} {rest : List UInt8} {v : Vlc} {iBytesRead iOffset : Nat}

/-- At the beginning of the scan the decoder is at the first MCU. -/
theorem CodedFile.start (hf : CodedFile p h M R mcus intervals rest v iBytesRead iOffset)
    (sMCUs : Nat → Int16) (ucMaxACCol ucMaxACRow : UInt8) :
    ∃ D, CodedFrom p h M D mcus 0 p.iResInterval (fun _ => 0) ∧
      ScanAt p R (fileHighwater - 1) D 0 p.iResInterval (fun _ => 0)
        (p.start (v.startScan iBytesRead iOffset) sMCUs ucMaxACCol ucMaxACRow) := by
  obtain ⟨hw, hfill⟩ := startScan_window (fileHighwater - 1) hf.ucFF hf.size_le hf.file
    hf.sparse rfl
  -- behind the filter the data is that of the intervals, without the markers
  rw [unstuff_marked_append hf.marker, List.flatMap_def] at hw
  obtain ⟨-, -, hcoded⟩ := encodeScan_coded hf.coded [] rfl
  exact ⟨_, hcoded, hw, hfill, rfl, fun _ => rfl⟩

/-- The decoder undoes the coder: it finds every MCU of the file, with the pixels of its blocks, and
    reports no error. -/
theorem scan_decodes (hp : Decodes p h)
    (hf : CodedFile p h M R mcus intervals rest v iBytesRead iOffset) (sMCUs : Nat → Int16)
    (ucMaxACCol ucMaxACRow : UInt8) :
    ∃ out, p.scan mcus.length (p.start (v.startScan iBytesRead iOffset) sMCUs ucMaxACCol
        ucMaxACRow) = (out, false) ∧
      List.Forall₂ (McuPixels p (mcuBlocks p.ucSubSample p.ucNumComponents)) mcus out := by
  obtain ⟨D, hcoded, hstart⟩ := hf.start sMCUs ucMaxACCol ucMaxACRow
  exact scan_coded hp hf.limit hcoded hstart

end

/-- A gray picture with restart intervals of two MCUs. -/
def grayScan : ScanInfo where
  ucHuffDC := (luminanceTables.jpegMakeHuffTables false).1.ucHuffDC
  usHuffAC := (luminanceTables.jpegMakeHuffTables false).1.usHuffAC
  b11Bit := false
  sQuantTable := jpegFixQuantD 1 fun _ => 4
  jpci := fun _ => ⟨0, 0, 0⟩
  ucSubSample := 0
  ucNumComponents := 1
  iResInterval := 2
  scale := .full

/-- A grayscale scan with the tables of the JPEG standard. -/
theorem decodes_grayScan : Decodes grayScan luminanceTables where
  ready := fun _ _ => ⟨expanded_luminanceTables, fun _ => rfl,
    by simp only [ScanInfo.mcuTables, grayScan], by simp only [ScanInfo.mcuTables, grayScan],
    Nat.zero_lt_two, Nat.zero_lt_two, (by decide : luminanceTables.used 0 = true),
    (by decide : luminanceTables.used 4 = true), rfl⟩
  subSample := by decide
  scale := .inl rfl

/-- Three MCUs, of which the last one has a long run of zeros. -/
def grayMcus : List (List (List Int)) :=
  [[100 :: List.replicate 63 0], [0 :: 1 :: -60 :: List.replicate 61 0],
    [-60 :: (List.replicate 62 0 ++ [3])]]

/-- Their intervals. Two bytes of the second one are FF. -/
def grayIntervals : List (List UInt8 × UInt8) :=
  [([246, 74, 241, 179, 224, 58], 0xd0), ([224, 255, 207, 249, 255, 63, 253, 159], 0xd9)]

/-- Half of the data has been read with the header. -/
def grayData : Vlc where
  ucFileBuf := bytesAt ((marked grayIntervals).take 10)
  iVLCOff := 0
  iVLCSize := 0
  ucFF := false
  bb := ⟨0, 0, 0⟩
  file := ⟨0, 10, bytesAt ((marked grayIntervals).drop 10)⟩

/-- Its three MCUs as a file. -/
theorem codedFile_gray :
    CodedFile grayScan luminanceTables 16 20 grayMcus grayIntervals [] grayData 10 0 where
  coded := by decide +kernel
  marker := by decide
  file := by decide
  ucFF := rfl
  size_le := by decide
  sparse := fun _ _ hchunk _ => Nat.le_trans hchunk.length_le (Nat.le_add_left 20 _)
  limit := by decide

/-- Its three MCUs are decoded. -/
theorem scan_decodes_gray : ∃ out,
    grayScan.scan 3 (grayScan.start (grayData.startScan 10 0) (fun _ => 0) 0 0) = (out, false) ∧
      List.Forall₂ (McuPixels grayScan [(0, 0)]) grayMcus out :=
  scan_decodes decodes_grayScan codedFile_gray _ _ _

end Ivy.Spec
