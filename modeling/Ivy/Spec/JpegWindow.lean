import Ivy.Spec.JpegBits
import Ivy.Spec.JpegFilter

/-!
# The decoder's window on the data

The buffer is a window on the filtered data. The decoder asks for more data only between two MCUs,
and only when it has come to `FILE_HIGHWATER`, so that an MCU has to lie in the window that is there
when it begins. How much data there is behind `FILE_HIGHWATER` depends on how much the filter has
removed, as the buffer is filled once with the bytes of the file.
-/

namespace Ivy.Spec

open Ivy.Native Ivy.Bits

/-- The data of the buffer, and behind it what the rest of the file will be filtered to. -/
def content (v : Vlc) : List UInt8 :=
  Mem.load v.ucFileBuf 0 v.iVLCSize ++ (unstuff v.ucFF (fileRest v.file)).2

/-- When the buffer is filled from a part of the file, at most `R` bytes are removed. -/
def Sparse (R : Nat) (raw : List UInt8) : Prop :=
  ∀ ff chunk, chunk <:+: raw → chunk.length ≤ jpegFileBufSize →
    chunk.length ≤ (unstuff ff chunk).2.length + R

/-- The decoder is at bit `P` of the data `D`. -/
structure Window (D : List UInt8) (v : Vlc) (P : Nat) : Prop where
  inBuffer : InBuffer v
  off : v.iVLCOff = v.bb.pBuf
  fresh : Fresh v.ucFileBuf v.bb (8 * v.iVLCSize)
  ahead : ∃ b, content v = D.drop b ∧ P = 8 * b + bitPos v.bb

/-- If there is more data in the file, then the decoder is not behind `lim` in the buffer, and the
    buffer has been filled but for the bytes that were removed. -/
structure Filled (R lim : Nat) (v : Vlc) : Prop where
  sparse : Sparse R (fileRest v.file)
  full : fileRest v.file = [] ∨
    v.iVLCOff ≤ lim ∧ jpegFileBufSize - 64 ≤ v.iVLCSize + R

/-- The end of a sparse file is sparse. -/
theorem Sparse.of_suffix {R : Nat} {raw raw' : List UInt8} (h : Sparse R raw)
    (hsuf : raw' <:+ raw) : Sparse R raw' :=
  fun ff chunk hchunk hlen => h ff chunk (hchunk.trans hsuf.isInfix) hlen

/-- A byte of the buffer is a byte of the data. -/
theorem byte_of_content {v : Vlc} {D : List UInt8} {b j : Nat} (h : content v = D.drop b)
    (hj : j < v.iVLCSize) : v.ucFileBuf j = bytesAt D (b + j) := by
  have hcell : (content v)[j]? = some (v.ucFileBuf j) := by
    rw [content, List.getElem?_append_left (by rwa [Mem.length_load]), Mem.getElem?_load _ hj,
      Nat.zero_add]
  rw [h, List.getElem?_drop] at hcell
  rw [bytesAt, hcell]
  rfl

/-- What is unread is a part of the content. -/
theorem unread_eq_drop {v : Vlc} (h : v.iVLCOff ≤ v.iVLCSize) :
    unread v = (content v).drop v.iVLCOff := by
  rw [content, List.drop_append_of_le_length (by rwa [Mem.length_load]), Mem.drop_load,
    Nat.zero_add]
  rfl

/-- Nothing has been read yet. -/
theorem content_eq_unread {v : Vlc} (h : v.iVLCOff = 0) : content v = unread v := by
  rw [unread_eq_drop (by omega), h, List.drop_zero]

section

variable {R lim : Nat} {D : List UInt8} {v : Vlc} {P : Nat}

/-! ## Reading in the window -/

/-- An MCU of at most `M` bytes that begins in front of `FILE_HIGHWATER` lies in the window. -/
theorem Window.room (h : Window D v P) (hf : Filled R (fileHighwater - 1) v) {M len : Nat}
    (hlimit : fileHighwater + M + R + 7 ≤ jpegFileBufSize - 64) (hlen : len ≤ 8 * M)
    (hD : P + len ≤ 8 * D.length) : bitPos v.bb + len ≤ 8 * v.iVLCSize := by
  obtain ⟨b, hcontent, hP⟩ := h.ahead
  rcases hf.full with hend | ⟨hoff, hfull⟩
  · -- the whole rest of the data is in the buffer
    have hsize := congrArg List.length hcontent
    simp only [content, hend, unstuff_nil, List.append_nil, Mem.length_load,
      List.length_drop] at hsize
    omega
  · have hword := h.fresh.off_le
    rw [h.off] at hoff
    simp only [bitPos, fileHighwater, jpegFileBufSize] at *
    omega

/-- The buffer holds what the data holds. -/
theorem Window.holds (h : Window D v P) {bits : List Bool}
    (hroom : bitPos v.bb + bits.length ≤ 8 * v.iVLCSize) (hbits : Holds (bytesAt D) P bits) :
    Holds v.ucFileBuf (bitPos v.bb) bits := by
  obtain ⟨b, hcontent, hP⟩ := h.ahead
  intro i x hi
  have hlt : i < bits.length := (List.getElem?_eq_some_iff.mp hi).1
  have hbit := bit_congr (show v.ucFileBuf (0 + (bitPos v.bb + i) / 8) = _ from
    (congrArg v.ucFileBuf (Nat.zero_add _)).trans (byte_of_content hcontent (by omega)))
  rw [Nat.mul_zero, Nat.zero_add] at hbit
  rw [hbit, ← Nat.add_assoc, ← hP]
  exact hbits i x hi

/-- The decoder goes on by `len` bits. -/
theorem Window.advance (h : Window D v P) {bb : BufferedBits} {len : Nat}
    (hfresh : Fresh v.ucFileBuf bb (8 * v.iVLCSize)) (hpos : bitPos bb = bitPos v.bb + len)
    (hroom : bitPos v.bb + len ≤ 8 * v.iVLCSize) :
    Window D { v with bb, iVLCOff := bb.pBuf } (P + len) := by
  obtain ⟨b, hcontent, hP⟩ := h.ahead
  refine ⟨⟨?_, h.inBuffer.size_le⟩, rfl, hfresh, b, hcontent, ?_⟩
  · simp only [bitPos] at hpos hroom ⊢
    omega
  · simp only
    omega

/-- Decoding takes from what is there. -/
theorem Filled.advance (hf : Filled R lim v) (h : Window D v P) {bb : BufferedBits} {M len : Nat}
    (hpos : bitPos bb = bitPos v.bb + len) (hlen : len ≤ 8 * M) :
    Filled R (lim + 4 + M) { v with bb, iVLCOff := bb.pBuf } := by
  have hword := h.fresh.off_le
  have hoff := h.off
  refine ⟨hf.sparse, hf.full.imp id fun ⟨hlow, hfull⟩ => ⟨?_, hfull⟩⟩
  simp only [bitPos] at hpos ⊢
  omega

/-- A restart interval begins on a byte boundary. -/
theorem Window.align (h : Window D v P) {off : UInt32}
    (hoff : off.toNat = (v.bb.ulBitOff.toNat + 7) / 8 * 8) :
    Window D { v with bb := { v.bb with ulBitOff := off } } ((P + 7) / 8 * 8) := by
  obtain ⟨b, hcontent, hP⟩ := h.ahead
  have hword := h.fresh.off_le
  refine ⟨⟨h.inBuffer.off_le, h.inBuffer.size_le⟩, h.off, ⟨h.fresh.agree, ?_⟩, b, hcontent, ?_⟩
  · simp only
    omega
  · simp only [bitPos] at hP ⊢
    omega

/-! ## Asking for more data -/

/-- The word stays up to date when data is appended behind it. -/
theorem Fresh.appended {buf buf' : Nat → UInt8} {bb : BufferedBits} {n : Nat}
    (h : Fresh buf bb (8 * n)) (hbuf : ∀ a < n, buf' a = buf a) (hword : bb.pBuf + 4 ≤ n)
    (E : Nat) : Fresh buf' bb E := by
  refine ⟨fun i _ => ?_, h.off_le⟩
  -- the bits in the register and the old bytes are as before
  by_cases hi : i / 8 < n
  · have hseen : seen buf' bb (i / 8) = seen buf bb (i / 8) := Mem.store_congr _ _ (hbuf _ hi)
    have hbit := h.agree i (by omega)
    rw [bit, bit] at hbit ⊢
    rw [hseen, hbuf _ hi]
    exact hbit
  · rw [bit, bit, seen, Mem.store_of_ge]
    simp only [List.length_cons, List.length_nil]
    omega

/-- The word stays up to date when the data is moved down. -/
theorem Fresh.moveDown (hfresh : Fresh v.ucFileBuf v.bb (8 * v.iVLCSize))
    (hoff : v.iVLCOff = v.bb.pBuf) :
    Fresh v.moveDown.ucFileBuf v.moveDown.bb (8 * v.moveDown.iVLCSize) := by
  rw [Vlc.moveDown]
  split
  · refine ⟨fun i hi => ?_, hfresh.off_le⟩
    simp only at hi ⊢
    -- both memories are the old ones, from `iVLCOff` on
    have hmoved : Mem.store v.ucFileBuf 0 (Mem.load v.ucFileBuf v.iVLCOff
        (v.iVLCSize - v.iVLCOff)) (0 + i / 8) = v.ucFileBuf (v.iVLCOff + i / 8) :=
      Mem.store_of_getElem? _ (Mem.getElem?_load _ (by omega))
    have hseen : seen (Mem.store v.ucFileBuf 0 (Mem.load v.ucFileBuf v.iVLCOff
        (v.iVLCSize - v.iVLCOff))) { v.bb with pBuf := 0 } (0 + i / 8) =
          seen v.ucFileBuf v.bb (v.iVLCOff + i / 8) := by
      rw [seen, Mem.store, hmoved, seen, Mem.store, hoff]
      simp
    have hold := hfresh.agree (8 * v.iVLCOff + i) (by omega)
    rw [← bit_congr hmoved, ← bit_congr hseen, Nat.mul_zero, Nat.zero_add] at hold
    exact hold
  · exact hfresh

/-- Filling leaves the position. -/
theorem fill_off_bb (v : Vlc) : v.fill.iVLCOff = v.iVLCOff ∧ v.fill.bb = v.bb := by
  rw [Vlc.fill]
  split <;> exact ⟨rfl, rfl⟩

/-- The rest of the file behind what was read. -/
theorem fileRest_fill (v : Vlc) : fileRest v.fill.file <:+ fileRest v.file := by
  by_cases hmore : v.file.iPos < v.file.iSize ∧ v.iVLCSize < jpegFileBufSize - 64
  · rw [fill_eq hmore]
    exact ⟨fillData v, (fileRest_readRAM _ _).symm⟩
  · rw [fill_of_not hmore]

/-- The buffer is filled up but for what the filter has removed. -/
theorem Sparse.fill_full (h : Sparse R (fileRest v.file)) (hsize : v.iVLCSize ≤ jpegFileBufSize) :
    fileRest v.fill.file = [] ∨ jpegFileBufSize - 64 ≤ v.fill.iVLCSize + R := by
  have hlen : (fillData v).length ≤ jpegFileBufSize - v.iVLCSize := length_readRAM_le _ _
  have hremoved := h v.ucFF (fillData v)
    (fileRest_readRAM v.file (jpegFileBufSize - v.iVLCSize) ▸ (List.prefix_append _ _).isInfix)
    (by omega)
  exact (Spec.fill_full hsize).imp id fun hfull => by omega

/-- Nothing in the buffer changes, if the file has been read; else the buffer is filled behind the
    bytes that are in the word. -/
theorem Fresh.fill (h : Fresh v.ucFileBuf v.bb (8 * v.iVLCSize))
    (hword : fileRest v.file = [] ∨ v.bb.pBuf + 4 ≤ v.iVLCSize) :
    Fresh v.fill.ucFileBuf v.fill.bb (8 * v.fill.iVLCSize) := by
  by_cases hmore : v.file.iPos < v.file.iSize ∧ v.iVLCSize < jpegFileBufSize - 64
  · -- there is more in the file, so the word is complete
    have hne : fileRest v.file ≠ [] := by
      intro hnil
      have hlen := congrArg List.length hnil
      simp only [fileRest, Mem.length_load, List.length_nil] at hlen
      omega
    rw [fill_eq hmore]
    exact h.appended (fillData_spec hmore).2.2 (hword.resolve_left hne) _
  · rw [fill_of_not hmore]
    exact h

/-- Moving the data down leaves the window. -/
theorem Window.moveDown (h : Window D v P) : Window D v.moveDown P := by
  by_cases hoff : v.iVLCOff ≠ 0
  · obtain ⟨b, hcontent, hP⟩ := h.ahead
    have hpBuf := h.off
    have hmoved := content_eq_unread (v := v.moveDown) (by rw [Vlc.moveDown, if_pos hoff])
    refine ⟨moveDown_inBuffer h.inBuffer, ?_, h.fresh.moveDown h.off, b + v.iVLCOff, ?_, ?_⟩
    · rw [Vlc.moveDown, if_pos hoff]
    · rw [hmoved, unread_moveDown, unread_eq_drop h.inBuffer.off_le, hcontent, List.drop_drop]
    · rw [Vlc.moveDown, if_pos hoff]
      simp only [bitPos] at hP ⊢
      omega
  · rw [Vlc.moveDown, if_neg hoff]
    exact h

/-- Filling the buffer when the decoder is at its beginning. -/
theorem Window.fill (h : Window D v P) (hzero : v.iVLCOff = 0)
    (hword : fileRest v.file = [] ∨ 4 ≤ v.iVLCSize) : Window D v.fill P := by
  obtain ⟨b, hcontent, hP⟩ := h.ahead
  obtain ⟨hoff, hbb⟩ := fill_off_bb v
  have hpBuf := h.off
  refine ⟨fill_inBuffer h.inBuffer, by rw [hoff, hbb, h.off], ?_, b, ?_, by rw [hbb, hP]⟩
  · exact h.fresh.fill (hword.imp id fun hw => by omega)
  · rw [content_eq_unread (hoff.trans hzero), unread_fill h.inBuffer, ← content_eq_unread hzero,
      hcontent]

/-- A buffer that is filled has few bytes less than it can hold. -/
theorem Sparse.filled (h : Sparse R (fileRest v.file)) (hsize : v.iVLCSize ≤ jpegFileBufSize)
    (hzero : v.iVLCOff = 0) (lim : Nat) : Filled R lim v.fill := by
  have hoff := (fill_off_bb v).1
  exact ⟨h.of_suffix (fileRest_fill v),
    (h.fill_full hsize).imp id fun hfull => ⟨by omega, hfull⟩⟩

/-- The decoder looks for more data. As long as there is some in the file, the bytes in the word
    are in front of the end of the buffer, so that they are not replaced. -/
theorem getMoreData_window (h : Window D v P) (hf : Filled R lim v)
    (hoff : fileHighwater ≤ v.iVLCOff) (hlim : lim + 4 + R ≤ jpegFileBufSize - 64) :
    Window D v.jpegGetMoreData P ∧ Filled R (fileHighwater - 1) v.jpegGetMoreData := by
  have hsize := h.inBuffer.size_le
  have hin := h.inBuffer.off_le
  -- past `FILE_HIGHWATER` the data is moved down and the buffer filled
  have hoff0 : v.iVLCOff ≠ 0 := by
    simp only [fileHighwater] at hoff
    omega
  have hasks : ¬ (v.iVLCSize - v.iVLCOff ≥ jpegFileBufSize - 64 ∨ v.iVLCSize < v.iVLCOff) := by
    simp only [fileHighwater, jpegFileBufSize] at *
    omega
  -- the position is the beginning of the buffer
  have hmoved : v.moveDown.iVLCOff = 0 ∧ v.moveDown.iVLCSize = v.iVLCSize - v.iVLCOff ∧
      v.moveDown.file = v.file := by
    rw [Vlc.moveDown, if_pos hoff0]
    exact ⟨rfl, rfl, rfl⟩
  rw [Vlc.jpegGetMoreData, if_neg hasks]
  refine ⟨h.moveDown.fill hmoved.1 ?_, Sparse.filled ?_ h.moveDown.inBuffer.size_le hmoved.1 _⟩
  · rw [hmoved.2.1, hmoved.2.2]
    exact hf.full.imp id fun hfull => by omega
  · rw [hmoved.2.2]
    exact hf.sparse

/-! ## The start of the scan -/

/-- At the beginning of the buffer nothing is moved. -/
theorem getMoreData_zero (hzero : v.iVLCOff = 0) :
    v.jpegGetMoreData = v ∧ jpegFileBufSize - 64 ≤ v.iVLCSize ∨ v.jpegGetMoreData = v.fill := by
  rw [Vlc.jpegGetMoreData]
  split
  · left
    exact ⟨rfl, by omega⟩
  · right
    rw [Vlc.moveDown, if_neg (by simpa using hzero)]

/-- The beginning of the data is loaded before the first MCU. -/
theorem startScan_window (lim : Nat) {iBytesRead iOffset : Nat} {raw : List UInt8}
    (hff : v.ucFF = false) (hsize : iBytesRead ≤ jpegFileBufSize)
    (hraw : Mem.load v.ucFileBuf iOffset (iBytesRead - iOffset) ++ fileRest v.file = raw)
    (hsparse : Sparse R raw) {v' : Vlc} (hv' : v' = v.startScan iBytesRead iOffset) :
    Window (unstuff false raw).2 { v' with bb := ⟨0, motoLong v'.ucFileBuf 0, 0⟩ } 0 ∧
      Filled R lim { v' with bb := ⟨0, motoLong v'.ucFileBuf 0, 0⟩ } := by
  obtain ⟨hin, hunread⟩ := startScan_spec iOffset hff hsize
  rw [← hv', hraw] at hunread
  rw [← hv'] at hin
  have hrest : Sparse R (fileRest v.file) := hsparse.of_suffix ⟨_, hraw⟩
  -- the buffer before it is filled
  obtain ⟨v₁, hv₁, hzero, hsize₁, hfile₁⟩ : ∃ v₁ : Vlc, v' = v₁.jpegGetMoreData ∧
      v₁.iVLCOff = 0 ∧ v₁.iVLCSize ≤ jpegFileBufSize ∧ v₁.file = v.file :=
    ⟨_, hv'.trans (startScan_eq _ _ hff), rfl,
      (filteredStart_inBuffer v iOffset hsize).size_le, rfl⟩
  have hfilled : v'.iVLCOff = 0 ∧ Filled R lim v' := by
    rw [hv₁]
    -- the buffer is full already, or it is filled now
    rcases getMoreData_zero hzero with ⟨hsame, hfull⟩ | hfill
    · rw [hsame]
      exact ⟨hzero, hfile₁ ▸ hrest, .inr ⟨by omega, by omega⟩⟩
    · rw [hfill]
      exact ⟨(fill_off_bb v₁).1.trans hzero, Sparse.filled (hfile₁ ▸ hrest) hsize₁ hzero lim⟩
  refine ⟨⟨⟨hin.off_le, hin.size_le⟩, hfilled.1, ⟨fun i _ => ?_, ?_⟩, 0, ?_, rfl⟩,
    hfilled.2.sparse, hfilled.2.full⟩
  · rw [seen_of_load rfl]
  · exact Nat.zero_le 32
  · rw [List.drop_zero, ← hunread]
    exact content_eq_unread hfilled.1

end

end Ivy.Spec
