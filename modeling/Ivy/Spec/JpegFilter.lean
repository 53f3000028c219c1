import Ivy.ForStd.Transducer
import Ivy.ForStd.Transition
import Ivy.Native.JpegVlc

/-!
# The data buffer holds the filtered file

What `JPEGFilter` does is a transducer with one bit of state, whether the last byte was a FF. It
works in place, as it never writes ahead of what it has read. `unread` is what the decoder has
still to read: the rest of the buffer and, behind it, the rest of the file as it will be filtered;
filling the buffer does not change it.
-/

namespace Ivy.Spec

open Ivy.Native

/-! ## The filter as a transducer -/

/-- One byte. The state is whether the byte before it was a FF that waits for its second byte. -/
def unstuffStep (ff : Bool) (c : UInt8) : Bool × List UInt8 :=
  if ff then (false, if c = 0 then [0xff] else [])
  else if c = 0xff then (true, [])
  else (false, [c])

/-- Remove stuffed zeros and markers. -/
def unstuff (ff : Bool) (bytes : List UInt8) : Bool × List UInt8 :=
  Transducer.run unstuffStep ff bytes

/-- Without bytes nothing changes. -/
@[simp] theorem unstuff_nil (ff : Bool) : unstuff ff [] = (ff, []) := rfl

/-- The byte behind an FF says whether the FF stays. -/
theorem unstuff_ff (c : UInt8) (bytes : List UInt8) :
    unstuff true (c :: bytes) =
      ((unstuff false bytes).1, (if c = 0 then [0xff] else []) ++ (unstuff false bytes).2) := rfl

/-- Any other byte stays. -/
theorem unstuff_byte {c : UInt8} (hc : c ≠ 0xff) (bytes : List UInt8) :
    unstuff false (c :: bytes) = ((unstuff false bytes).1, c :: (unstuff false bytes).2) := by
  rw [unstuff, Transducer.run_cons, unstuffStep, if_neg (by decide), if_neg hc]
  rfl

/-- An FF with the byte behind it. -/
theorem unstuff_pair (c : UInt8) (bytes : List UInt8) :
    unstuff false (0xff :: c :: bytes) =
      ((unstuff false bytes).1, (if c = 0 then [0xff] else []) ++ (unstuff false bytes).2) := rfl

/-- The filter can be stopped anywhere, if it remembers an FF at the end. -/
theorem unstuff_append (ff : Bool) (bytes bytes' : List UInt8) :
    unstuff ff (bytes ++ bytes') = ((unstuff (unstuff ff bytes).1 bytes').1,
      (unstuff ff bytes).2 ++ (unstuff (unstuff ff bytes).1 bytes').2) :=
  Transducer.run_append ff bytes bytes'

/-- The filter adds nothing. -/
theorem length_unstuff_le (ff : Bool) (bytes : List UInt8) :
    (unstuff ff bytes).2.length ≤ bytes.length := by
  -- a byte makes at most one byte: an FF is written with its zero, not before
  refine Transducer.length_run_le ff (fun ff c => ?_) bytes
  rw [unstuffStep]
  split
  · dsimp only
    split <;> simp
  · split <;> simp

/-! ## `JPEGFilter` works in place -/

/-- The end of `JPEGFilter`: the last byte. -/
def filterLast (stop : Nat) (st : FilterState) : (Nat → UInt8) × Nat × Bool :=
  if st.s + 1 = stop then
    if st.buf st.s = 0xff then (st.buf, st.d, true)
    else (Mem.store st.buf st.d [st.buf st.s], st.d + 1, false)
  else (st.buf, st.d, false)

/-- What a part of the filter has done from the state `st` on: the bytes up to `stop` have been
    filtered to `d`, and nothing else has changed. -/
structure Filtered (ff : Bool) (st : FilterState) (stop : Nat) (r : (Nat → UInt8) × Nat × Bool) :
    Prop where
  pending : r.2.2 = (unstuff ff (Mem.load st.buf st.s (stop - st.s))).1
  d : r.2.1 = st.d + (unstuff ff (Mem.load st.buf st.s (stop - st.s))).2.length
  out : Mem.load r.1 st.d (unstuff ff (Mem.load st.buf st.s (stop - st.s))).2.length =
    (unstuff ff (Mem.load st.buf st.s (stop - st.s))).2
  frame : ∀ a, a < st.d ∨ stop ≤ a → r.1 a = st.buf a

/-- The first byte of a range, and the others. -/
theorem load_cons (m : Nat → UInt8) {p stop : Nat} (h : p < stop) :
    Mem.load m p (stop - p) = m p :: Mem.load m (p + 1) (stop - (p + 1)) := by
  rw [show stop - p = 1 + (stop - (p + 1)) by omega, Mem.load_add]
  rfl

/-- A byte that is written at `d` does not change what is still to be read. -/
theorem load_store_behind (m : Nat → UInt8) {d s n : Nat} (c : UInt8) (h : d < s) :
    Mem.load (Mem.store m d [c]) s n = Mem.load m s n :=
  Mem.load_congr fun j hj _ => Mem.store_of_ge m [c] (by simp; omega)

/-- A byte that is written at `d` is in front of `stop`. -/
theorem store_frame (m : Nat → UInt8) {d stop a : Nat} (c : UInt8) (h : d < stop)
    (ha : a < d ∨ stop ≤ a) : Mem.store m d [c] a = m a := by
  rcases ha with ha | ha
  · exact Mem.store_of_lt _ _ ha
  · exact Mem.store_of_ge _ _ (by simp only [List.length_singleton]; omega)

/-- Going on after `out` has been put at `d`. -/
theorem Filtered.step {ff ff' : Bool} {st st' : FilterState} {stop : Nat}
    {r : (Nat → UInt8) × Nat × Bool} (h : Filtered ff' st' stop r) (out : List UInt8)
    (hu : unstuff ff (Mem.load st.buf st.s (stop - st.s)) =
      ((unstuff ff' (Mem.load st'.buf st'.s (stop - st'.s))).1,
        out ++ (unstuff ff' (Mem.load st'.buf st'.s (stop - st'.s))).2))
    (hd : st'.d = st.d + out.length) (hout : Mem.load st'.buf st.d out.length = out)
    (hframe : ∀ a, a < st.d ∨ stop ≤ a → st'.buf a = st.buf a) : Filtered ff st stop r where
  pending := by rw [hu]; exact h.pending
  d := by rw [hu, h.d, hd, List.length_append, Nat.add_assoc]
  out := by
    -- `out` lies in front of `st'.d`, where the rest of the filter writes nothing
    rw [hu, List.length_append, Mem.load_add, ← hd, h.out]
    refine congrArg (· ++ _) (Eq.trans ?_ hout)
    exact Mem.load_congr fun j hj hj' => h.frame j (.inl (by omega))
  frame a ha := by
    rw [h.frame a (by omega), hframe a ha]

/-- The test of the last byte leaves what the filter makes of it. -/
theorem filterLast_filtered {st : FilterState} {stop : Nat} (hds : st.d ≤ st.s)
    (h : stop ≤ st.s + 1) : Filtered false st stop (filterLast stop st) := by
  by_cases hlast : st.s + 1 = stop
  · -- one byte is left
    have hload : Mem.load st.buf st.s (stop - st.s) = [st.buf st.s] := by
      rw [show stop - st.s = 1 by omega]
      rfl
    rw [filterLast, if_pos hlast]
    split
    · rename_i hff
      -- an FF is only remembered
      have hu : unstuff false (Mem.load st.buf st.s (stop - st.s)) = (true, []) := by
        rw [hload, hff]
        rfl
      exact ⟨by rw [hu], by rw [hu]; rfl, by rw [hu]; rfl, fun a _ => rfl⟩
    · rename_i hff
      have hu : unstuff false (Mem.load st.buf st.s (stop - st.s)) = (false, [st.buf st.s]) := by
        rw [hload, unstuff_byte hff]
        rfl
      exact ⟨by rw [hu], by rw [hu]; rfl, by rw [hu]; exact Mem.load_store_at _ _ _,
        fun a ha => store_frame st.buf _ (by omega) ha⟩
  · -- the last FF took the last byte with it
    have hload : Mem.load st.buf st.s (stop - st.s) = [] := by
      rw [show stop - st.s = 0 by omega]
      rfl
    rw [filterLast, if_neg hlast]
    exact ⟨by rw [hload]; rfl, by rw [hload]; rfl, by rw [hload]; rfl, fun a _ => rfl⟩

/-- The loop filters all bytes but the last one: by induction on the rounds, from the state that a
    round leaves behind. -/
theorem filterLoop_filtered {stop : Nat} (n : Nat) (st : FilterState) (hds : st.d ≤ st.s)
    (hn : stop ≤ st.s + n) : Filtered false st stop (filterLast stop (filterLoop stop n st)) := by
  induction n generalizing st with
  | zero => exact filterLast_filtered hds (by omega)
  | succ n ih =>
    rw [filterLoop]
    split
    · rename_i hs
      -- the write pointer is not in front of the read pointer, so that no unread byte is written
      have hframe : ∀ a, a < st.d ∨ stop ≤ a →
          Mem.store st.buf st.d [st.buf st.s] a = st.buf a :=
        fun a ha => store_frame st.buf _ (by omega) ha
      have hread := fun k => load_store_behind (n := k) st.buf (st.buf st.s)
        (show st.d < st.s + 1 by omega)
      have hread' := fun k => load_store_behind (n := k) st.buf (st.buf st.s)
        (show st.d < st.s + 2 by omega)
      dsimp only
      split
      · -- a FF: the next byte says whether it stays
        rename_i hff
        have hnext : Mem.store st.buf st.d [st.buf st.s] (st.s + 1) = st.buf (st.s + 1) :=
          Mem.store_of_ge _ _ (by simp only [List.length_singleton]; omega)
        have hload : Mem.load st.buf st.s (stop - st.s) =
            0xff :: st.buf (st.s + 1) :: Mem.load st.buf (st.s + 2) (stop - (st.s + 2)) := by
          rw [load_cons _ (by omega), load_cons _ (by omega), hff]
        refine (ih ⟨_, st.s + 2, _⟩ ?_ (by simp only; omega)).step
          (if st.buf (st.s + 1) = 0 then [0xff] else []) ?_ ?_ ?_ hframe
        · simp only [hnext]
          split <;> omega
        · rw [hload, unstuff_pair]
          simp only [hread']
        · simp only [hnext]
          by_cases h0 : st.buf (st.s + 1) = 0 <;> simp [h0]
        · by_cases h0 : st.buf (st.s + 1) = 0
          · rw [if_pos h0, hff]
            exact Mem.load_store_at _ _ _
          · rw [if_neg h0]
            rfl
      · -- any other byte is copied
        rename_i hff
        refine (ih ⟨_, st.s + 1, _⟩ (by simp only; omega) (by simp only; omega)).step
          [st.buf st.s] ?_ rfl (Mem.load_store_at _ _ _) hframe
        rw [load_cons _ (by omega), unstuff_byte hff]
        simp only [hread, List.singleton_append]
    · exact filterLast_filtered hds (by omega)

/-- The whole filter. -/
theorem filter_filtered (buf : Nat → UInt8) {p d n : Nat} {ff : Bool} (hd : d ≤ p)
    (hn : ff = true → 1 ≤ n) :
    Filtered ff ⟨buf, p, d⟩ (p + n)
      (filterLast (p + n) (filterLoop (p + n) n (filterFirst buf p d ff))) := by
  cases ff with
  | false => exact filterLoop_filtered n _ hd (by simp only; omega)
  | true =>
    have hpos := hn rfl
    have hload : Mem.load buf p (p + n - p) = buf p :: Mem.load buf (p + 1) (p + n - (p + 1)) :=
      load_cons buf (by omega)
    -- an FF was the last byte of the block before: the first byte is its second one
    rw [filterFirst, if_pos rfl]
    split
    · -- a stuffed zero: the FF is written now
      rename_i h0
      refine (filterLoop_filtered n ⟨_, p + 1, d + 1⟩ ?_ ?_).step [0xff]
        ?_ rfl (Mem.load_store_at _ _ _) fun a ha => store_frame buf _ (by omega) ha
      · simp only; omega
      · simp only; omega
      · rw [hload, unstuff_ff, if_pos h0]
        simp only [load_store_behind (s := p + 1) buf 0xff (show d < p + 1 by omega)]
    · rename_i h0
      refine (filterLoop_filtered n ⟨buf, p + 1, d⟩ ?_ ?_).step []
        ?_ rfl rfl fun a _ => rfl
      · simp only; omega
      · simp only; omega
      · rw [hload, unstuff_ff, if_neg h0]

/-- `JPEGFilter` is its three parts. -/
theorem jpegFilter_eq (buf : Nat → UInt8) (p d n : Nat) (ff : Bool) :
    jpegFilter buf p d n ff =
      ((filterLast (p + n) (filterLoop (p + n) n (filterFirst buf p d ff))).1,
        (filterLast (p + n) (filterLoop (p + n) n (filterFirst buf p d ff))).2.1 - d,
        (filterLast (p + n) (filterLoop (p + n) n (filterFirst buf p d ff))).2.2) := by
  rw [jpegFilter, filterLast]
  split
  · dsimp only
    split <;> rfl
  · rfl

/-- `JPEGFilter` filters in place: the `n` bytes at `p` go to `d`, which must not lie ahead of
    them. -/
theorem jpegFilter_spec (buf : Nat → UInt8) {p d n : Nat} {ff : Bool} (hd : d ≤ p)
    (hn : ff = true → 1 ≤ n) :
    (jpegFilter buf p d n ff).2 =
        ((unstuff ff (Mem.load buf p n)).2.length, (unstuff ff (Mem.load buf p n)).1) ∧
      Mem.load (jpegFilter buf p d n ff).1 d (unstuff ff (Mem.load buf p n)).2.length =
        (unstuff ff (Mem.load buf p n)).2 ∧
      ∀ a, a < d ∨ p + n ≤ a → (jpegFilter buf p d n ff).1 a = buf a := by
  obtain ⟨hff, hd', hout, hframe⟩ := filter_filtered buf hd hn
  simp only [Nat.add_sub_cancel_left] at hff hd' hout hframe
  rw [jpegFilter_eq]
  exact ⟨by rw [hff, hd', Nat.add_sub_cancel_left], hout, hframe⟩

/-! ## Filling the buffer -/

/-- The part of the file that has not been read. -/
def fileRest (f : JpegFile) : List UInt8 := Mem.load f.pData f.iPos (f.iSize - f.iPos)

/-- What the decoder has still to read. -/
def unread (v : Vlc) : List UInt8 :=
  Mem.load v.ucFileBuf v.iVLCOff (v.iVLCSize - v.iVLCOff) ++ (unstuff v.ucFF (fileRest v.file)).2

/-- The decoder is within the data, and the data within the buffer. -/
structure InBuffer (v : Vlc) : Prop where
  off_le : v.iVLCOff ≤ v.iVLCSize
  size_le : v.iVLCSize ≤ jpegFileBufSize

/-- What is read, and what is left in the file. -/
theorem fileRest_readRAM (f : JpegFile) (iLen : Nat) :
    fileRest f = (f.readRAM iLen).1 ++ fileRest (f.readRAM iLen).2 := by
  -- the file can be cut anywhere
  have hle : ∀ n, n ≤ f.iSize - f.iPos →
      fileRest f = Mem.load f.pData f.iPos n ++ Mem.load f.pData (f.iPos + n)
        (f.iSize - (f.iPos + n)) := by
    intro n hn
    rw [fileRest, ← Mem.load_add]
    congr 1
    omega
  rw [JpegFile.readRAM]
  apply hle
  split <;> omega

/-- Not more is read than was asked for. -/
theorem length_readRAM_le (f : JpegFile) (iLen : Nat) : (f.readRAM iLen).1.length ≤ iLen := by
  rw [JpegFile.readRAM, Mem.length_load]
  split <;> omega

/-- Moving the data down leaves it in the buffer. -/
theorem moveDown_inBuffer {v : Vlc} (h : InBuffer v) : InBuffer v.moveDown := by
  rw [Vlc.moveDown]
  split
  · exact ⟨Nat.zero_le _, Nat.le_trans (Nat.sub_le _ _) h.size_le⟩
  · exact h

/-- Moving the data down changes nothing for the decoder. -/
theorem unread_moveDown (v : Vlc) : unread v.moveDown = unread v := by
  rw [Vlc.moveDown]
  split
  · -- the rest is moved to the front, and read from there
    have hback := Mem.load_store v.ucFileBuf
      (Mem.load v.ucFileBuf v.iVLCOff (v.iVLCSize - v.iVLCOff))
    rw [Mem.length_load] at hback
    simp only [unread, Nat.sub_zero, hback]
  · rfl

/-- The bytes that `fill` reads. -/
def fillData (v : Vlc) : List UInt8 := (v.file.readRAM (jpegFileBufSize - v.iVLCSize)).1

/-- What `fill` leaves in the buffer. -/
def fillBuf (v : Vlc) : Nat → UInt8 :=
  (jpegFilter (Mem.store v.ucFileBuf v.iVLCSize (fillData v)) v.iVLCSize v.iVLCSize
    (fillData v).length v.ucFF).1

section

variable {v : Vlc}

/-- The new bytes are filtered in place, behind the old ones. -/
theorem fillData_spec (hmore : v.file.iPos < v.file.iSize ∧ v.iVLCSize < jpegFileBufSize - 64) :
    (jpegFilter (Mem.store v.ucFileBuf v.iVLCSize (fillData v)) v.iVLCSize v.iVLCSize
        (fillData v).length v.ucFF).2 =
      ((unstuff v.ucFF (fillData v)).2.length, (unstuff v.ucFF (fillData v)).1) ∧
    Mem.load (fillBuf v) v.iVLCSize (unstuff v.ucFF (fillData v)).2.length =
      (unstuff v.ucFF (fillData v)).2 ∧
    ∀ a, a < v.iVLCSize → fillBuf v a = v.ucFileBuf a := by
  -- there is room and the file is not at its end, so at least one byte is read
  have hpos : 1 ≤ (fillData v).length := by
    rw [fillData, JpegFile.readRAM, Mem.length_load]
    split <;> omega
  have hspec := jpegFilter_spec (Mem.store v.ucFileBuf v.iVLCSize (fillData v))
    (Nat.le_refl v.iVLCSize) fun (_ : v.ucFF = true) => hpos
  rw [Mem.load_store_at] at hspec
  refine ⟨hspec.1, hspec.2.1, fun a ha => ?_⟩
  rw [fillBuf, hspec.2.2 a (.inl ha), Mem.store_of_lt _ _ ha]

/-- Filling the buffer appends what the bytes that are read filter to. -/
theorem fill_eq (hmore : v.file.iPos < v.file.iSize ∧ v.iVLCSize < jpegFileBufSize - 64) :
    v.fill = { v with
      ucFileBuf := fillBuf v
      iVLCSize := v.iVLCSize + (unstuff v.ucFF (fillData v)).2.length
      ucFF := (unstuff v.ucFF (fillData v)).1
      file := (v.file.readRAM (jpegFileBufSize - v.iVLCSize)).2 } := by
  have hsnd := (fillData_spec hmore).1
  have hlen := congrArg Prod.fst hsnd
  have hff := congrArg Prod.snd hsnd
  rw [Vlc.fill, if_pos hmore]
  dsimp only at hlen hff ⊢
  rw [← hlen, ← hff]
  rfl

/-- Nothing is read from a file that is used up, or into a buffer that is full. -/
theorem fill_of_not (hmore : ¬ (v.file.iPos < v.file.iSize ∧
    v.iVLCSize < jpegFileBufSize - 64)) : v.fill = v := by
  rw [Vlc.fill, if_neg hmore]

/-- The data stays in the buffer when it is filled. -/
theorem fill_inBuffer (h : InBuffer v) : InBuffer v.fill := by
  by_cases hmore : v.file.iPos < v.file.iSize ∧ v.iVLCSize < jpegFileBufSize - 64
  · have hlen : (fillData v).length ≤ jpegFileBufSize - v.iVLCSize := length_readRAM_le _ _
    have hout := length_unstuff_le v.ucFF (fillData v)
    have hoff := h.off_le
    rw [fill_eq hmore]
    exact ⟨by simp only; omega, by simp only; omega⟩
  · rw [fill_of_not hmore]
    exact h

/-- Filling the buffer changes nothing for the decoder. -/
theorem unread_fill (h : InBuffer v) : unread v.fill = unread v := by
  by_cases hmore : v.file.iPos < v.file.iSize ∧ v.iVLCSize < jpegFileBufSize - 64
  · obtain ⟨-, hout, hframe⟩ := fillData_spec hmore
    have hoff := h.off_le
    -- the buffer grows by what the data filters to
    have hbuf : Mem.load (fillBuf v) v.iVLCOff
        (v.iVLCSize + (unstuff v.ucFF (fillData v)).2.length - v.iVLCOff) =
          Mem.load v.ucFileBuf v.iVLCOff (v.iVLCSize - v.iVLCOff) ++
            (unstuff v.ucFF (fillData v)).2 := by
      rw [show v.iVLCSize + (unstuff v.ucFF (fillData v)).2.length - v.iVLCOff =
          (v.iVLCSize - v.iVLCOff) + (unstuff v.ucFF (fillData v)).2.length by omega,
        Mem.load_add, show v.iVLCOff + (v.iVLCSize - v.iVLCOff) = v.iVLCSize by omega, hout]
      congr 1
      exact Mem.load_congr fun a _ ha => hframe a (by omega)
    have hfile : fileRest v.file = fillData v ++
        fileRest (v.file.readRAM (jpegFileBufSize - v.iVLCSize)).2 := fileRest_readRAM _ _
    -- an FF at the end of the buffer is remembered for the new bytes
    rw [fill_eq hmore, unread, unread, hfile, unstuff_append]
    simp only [hbuf, List.append_assoc]
  · rw [fill_of_not hmore]

/-- After filling, either the file has been read or the buffer is full but for the bytes that
    were filtered out. -/
theorem fill_full (hsize : v.iVLCSize ≤ jpegFileBufSize) :
    fileRest v.fill.file = [] ∨ jpegFileBufSize - 64 ≤ v.fill.iVLCSize +
      ((fillData v).length - (unstuff v.ucFF (fillData v)).2.length) := by
  by_cases hmore : v.file.iPos < v.file.iSize ∧ v.iVLCSize < jpegFileBufSize - 64
  · rw [fill_eq hmore]
    -- is there more in the file than fits?
    simp only [fillData, fileRest, JpegFile.readRAM, Mem.length_load]
    split
    · left
      rw [show v.file.iSize - (v.file.iPos + (v.file.iSize - v.file.iPos)) = 0 by omega]
      rfl
    · right
      omega
  · rw [fill_of_not hmore]
    by_cases hpos : v.file.iPos < v.file.iSize
    · right
      omega
    · left
      rw [fileRest, show v.file.iSize - v.file.iPos = 0 by omega]
      rfl

/-- `JPEGGetMoreData` leaves the data in the buffer. -/
theorem jpegGetMoreData_inBuffer (h : InBuffer v) : InBuffer v.jpegGetMoreData := by
  rw [Vlc.jpegGetMoreData]
  split
  · exact h
  · exact fill_inBuffer (moveDown_inBuffer h)

/-- Behind the end of the data nothing is done. -/
theorem jpegGetMoreData_of_behind (h : v.iVLCSize < v.iVLCOff) : v.jpegGetMoreData = v := by
  rw [Vlc.jpegGetMoreData, if_pos (.inr h)]

/-- The data does not get longer than the buffer, also when the decoder is behind its end. -/
theorem jpegGetMoreData_size_le (hsize : v.iVLCSize ≤ jpegFileBufSize) :
    v.jpegGetMoreData.iVLCSize ≤ jpegFileBufSize := by
  by_cases hoff : v.iVLCOff ≤ v.iVLCSize
  · exact (jpegGetMoreData_inBuffer ⟨hoff, hsize⟩).size_le
  · rwa [jpegGetMoreData_of_behind (Nat.lt_of_not_le hoff)]

/-- `JPEGGetMoreData` changes nothing for the decoder. -/
theorem unread_jpegGetMoreData (h : InBuffer v) : unread v.jpegGetMoreData = unread v := by
  rw [Vlc.jpegGetMoreData]
  split
  · rfl
  · rw [unread_fill (moveDown_inBuffer h), unread_moveDown]

end

/-! ## Any order of reading and filling -/

/-- What the decoder does to the buffer: it goes on by some bytes, or asks for more. -/
inductive VlcAct
  | advance (n : Nat)
  | getMoreData
  deriving DecidableEq, Repr

/-- `JPEGDecodeMCU` does not look where the data ends. -/
def vlcStep (v : Vlc) : VlcAct → Option Vlc
  | .advance n => some { v with iVLCOff := v.iVLCOff + n }
  | .getMoreData => some v.jpegGetMoreData

/-- How many bytes the decoder goes on in all. -/
def advanced : List VlcAct → Nat
  | [] => 0
  | .advance n :: as => n + advanced as
  | .getMoreData :: as => advanced as

/-- The decoder stays within the data that it has. -/
def WithinData (v : Vlc) (a : VlcAct) : Prop := v.iVLCOff + advanced [a] ≤ v.iVLCSize

instance (v : Vlc) (a : VlcAct) : Decidable (WithinData v a) :=
  inferInstanceAs (Decidable (_ ≤ _))

/-- The bytes of the first step come to those of the others. -/
theorem advanced_cons (a : VlcAct) (as : List VlcAct) :
    advanced (a :: as) = advanced [a] + advanced as := by
  cases a <;> simp [advanced]

/-- One step within the data takes as many bytes as it says from what lies ahead. -/
theorem vlcStep_spec {v v' : Vlc} {a : VlcAct} (h : InBuffer v) (hin : WithinData v a)
    (hstep : vlcStep v a = some v') :
    InBuffer v' ∧ unread v' = (unread v).drop (advanced [a]) := by
  cases a with
  | advance n =>
    cases hstep
    have hn : v.iVLCOff + n ≤ v.iVLCSize := hin
    -- the bytes are those of the buffer, as the step stays within the data
    have hdrop : Mem.load v.ucFileBuf (v.iVLCOff + n) (v.iVLCSize - (v.iVLCOff + n)) =
        (Mem.load v.ucFileBuf v.iVLCOff (v.iVLCSize - v.iVLCOff)).drop n := by
      rw [Mem.drop_load, Nat.sub_sub]
    refine ⟨⟨hn, h.size_le⟩, ?_⟩
    simp only [unread, advanced, Nat.add_zero, hdrop]
    rw [List.drop_append_of_le_length (by rw [Mem.length_load]; omega)]
  | getMoreData =>
    cases hstep
    exact ⟨jpegGetMoreData_inBuffer h, unread_jpegGetMoreData h⟩

/-- However reading and filling alternate within the data, what lies ahead of the decoder is what
    the rest of the file filters to. -/
theorem run_unread {v v' : Vlc} {as : List VlcAct} (h : InBuffer v)
    (hrun : Lts.Run vlcStep WithinData v as v') :
    InBuffer v' ∧ unread v' = (unread v).drop (advanced as) := by
  induction hrun with
  | nil v => exact ⟨h, rfl⟩
  | cons hin hstep _ ih =>
    obtain ⟨hin, hread⟩ := vlcStep_spec h hin hstep
    obtain ⟨hin', hread'⟩ := ih hin
    exact ⟨hin', by rw [hread', hread, List.drop_drop, ← advanced_cons]⟩

/-- No run makes the data longer than the buffer. -/
theorem run_size_le {v v' : Vlc} {as : List VlcAct} {ok : Vlc → VlcAct → Prop}
    (h : v.iVLCSize ≤ jpegFileBufSize) (hrun : Lts.Run vlcStep ok v as v') :
    v'.iVLCSize ≤ jpegFileBufSize := by
  refine hrun.invariant (I := fun v => v.iVLCSize ≤ jpegFileBufSize) (fun v a v' hv _ hstep => ?_) h
  cases a with
  | advance n =>
    cases hstep
    exact hv
  | getMoreData =>
    cases hstep
    exact jpegGetMoreData_size_le hv

/-! ## Stuffed data -/

/-- A coder puts a zero behind every FF of the coded data. -/
def stuff (bytes : List UInt8) : List UInt8 :=
  bytes.flatMap fun b => if b = 0xff then [0xff, 0] else [b]

/-- Intervals of coded data, each with the marker behind it. -/
def marked (intervals : List (List UInt8 × UInt8)) : List UInt8 :=
  intervals.flatMap fun x => stuff x.1 ++ [0xff, x.2]

/-- The filter undoes the stuffing. -/
theorem unstuff_stuff_append (bytes rest : List UInt8) :
    (unstuff false (stuff bytes ++ rest)).2 = bytes ++ (unstuff false rest).2 := by
  induction bytes with
  | nil => rfl
  | cons b bytes ih =>
    rw [stuff, List.flatMap_cons, List.append_assoc]
    by_cases hb : b = 0xff
    · -- the zero behind the FF tells that it is data
      rw [if_pos hb, List.cons_append, List.cons_append, List.nil_append, unstuff_pair, if_pos rfl,
        ← stuff, ih, hb]
      rfl
    · rw [if_neg hb, List.singleton_append, unstuff_byte hb, ← stuff, ih]
      rfl

/-- Bytes other than FF pass through the filter. -/
theorem unstuff_replicate_append {b : UInt8} (hb : b ≠ 0xff) (n : Nat) (rest : List UInt8) :
    unstuff false (List.replicate n b ++ rest) =
      ((unstuff false rest).1, List.replicate n b ++ (unstuff false rest).2) := by
  induction n with
  | zero => rfl
  | succ n ih => rw [List.replicate_succ, List.cons_append, unstuff_byte hb, ih]; rfl

/-- The filter undoes the stuffing of all intervals, and removes the markers. -/
theorem unstuff_marked_append {intervals : List (List UInt8 × UInt8)}
    (hmark : ∀ x ∈ intervals, x.2 ≠ 0) (rest : List UInt8) :
    (unstuff false (marked intervals ++ rest)).2 =
      intervals.flatMap Prod.fst ++ (unstuff false rest).2 := by
  induction intervals with
  | nil => rfl
  | cons x xs ih =>
    rw [marked, List.flatMap_cons, List.append_assoc, List.append_assoc, unstuff_stuff_append,
      List.cons_append, List.cons_append, List.nil_append, unstuff_pair,
      if_neg (hmark x List.mem_cons_self), ← marked,
      ih fun y hy => hmark y (List.mem_cons_of_mem x hy)]
    simp

section

variable {v : Vlc} {iBytesRead iOffset : Nat}

/-- The first bytes of the scan have been filtered. -/
def filteredStart (v : Vlc) (iBytesRead iOffset : Nat) : Vlc :=
  let raw := Mem.load v.ucFileBuf iOffset (iBytesRead - iOffset)
  { v with
    ucFileBuf := (jpegFilter v.ucFileBuf iOffset 0 (iBytesRead - iOffset) v.ucFF).1
    iVLCOff := 0
    iVLCSize := (unstuff false raw).2.length
    ucFF := (unstuff false raw).1 }

/-- `JPEGParseInfo` filters what it has read, and asks for more. -/
theorem startScan_eq (iBytesRead iOffset : Nat) (hff : v.ucFF = false) :
    v.startScan iBytesRead iOffset = (filteredStart v iBytesRead iOffset).jpegGetMoreData := by
  have hsnd := (jpegFilter_spec v.ucFileBuf (n := iBytesRead - iOffset) (Nat.zero_le iOffset)
    fun (h : v.ucFF = true) => by simp [hff] at h).1
  have hlen := congrArg Prod.fst hsnd
  have hlast := congrArg Prod.snd hsnd
  rw [Vlc.startScan, filteredStart]
  dsimp only at hlen hlast ⊢
  rw [hlen, hlast, hff]

/-- Filtered bytes take no more room than before. -/
theorem filteredStart_inBuffer (v : Vlc) (iOffset : Nat) (hsize : iBytesRead ≤ jpegFileBufSize) :
    InBuffer (filteredStart v iBytesRead iOffset) := by
  have hle := length_unstuff_le false (Mem.load v.ucFileBuf iOffset (iBytesRead - iOffset))
  rw [Mem.length_load] at hle
  refine ⟨Nat.zero_le _, ?_⟩
  simp only [filteredStart]
  omega

/-- At the beginning of the scan everything lies ahead of the decoder. -/
theorem startScan_spec (iOffset : Nat) (hff : v.ucFF = false)
    (hsize : iBytesRead ≤ jpegFileBufSize) :
    InBuffer (v.startScan iBytesRead iOffset) ∧
      unread (v.startScan iBytesRead iOffset) = (unstuff false
        (Mem.load v.ucFileBuf iOffset (iBytesRead - iOffset) ++ fileRest v.file)).2 := by
  have hin := filteredStart_inBuffer v iOffset hsize
  have hout := (jpegFilter_spec v.ucFileBuf (n := iBytesRead - iOffset) (Nat.zero_le iOffset)
    fun (h : v.ucFF = true) => by simp [hff] at h).2.1
  rw [hff] at hout
  rw [startScan_eq iBytesRead iOffset hff]
  refine ⟨jpegGetMoreData_inBuffer hin, ?_⟩
  rw [unread_jpegGetMoreData hin, unread, unstuff_append]
  simp only [filteredStart, Nat.sub_zero, hff, hout]

end

/-- The decoder reads the coded data as the coder made it. Whatever it does with the buffer after
    `JPEGParseInfo`, the data does not get longer than the buffer. As long as it stays within the
    data, the bytes ahead of it are the bytes of the intervals, without the stuffed zeros and
    without the markers, from the position on that it has come to. Behind the end of the data it is
    not fed any more. -/
theorem coded_bytes_delivered {v v' : Vlc} {iBytesRead iOffset : Nat} {as : List VlcAct}
    {intervals : List (List UInt8 × UInt8)} {rest : List UInt8} (hff : v.ucFF = false)
    (hsize : iBytesRead ≤ jpegFileBufSize) (hmark : ∀ x ∈ intervals, x.2 ≠ 0)
    (hfile : Mem.load v.ucFileBuf iOffset (iBytesRead - iOffset) ++ fileRest v.file =
      marked intervals ++ rest)
    (hrun : Lts.Run vlcStep (fun _ _ => True) (v.startScan iBytesRead iOffset) as v') :
    v'.iVLCSize ≤ jpegFileBufSize ∧
      (Lts.Run vlcStep WithinData (v.startScan iBytesRead iOffset) as v' →
        v'.iVLCOff ≤ v'.iVLCSize ∧
        ∀ k, v'.iVLCOff + k ≤ v'.iVLCSize → advanced as + k ≤ (intervals.flatMap Prod.fst).length →
          Mem.load v'.ucFileBuf v'.iVLCOff k =
            ((intervals.flatMap Prod.fst).drop (advanced as)).take k) ∧
      (v'.iVLCSize < v'.iVLCOff → vlcStep v' .getMoreData = some v') := by
  obtain ⟨hin, hunread⟩ := startScan_spec iOffset hff hsize
  refine ⟨run_size_le hin.size_le hrun, fun hwithin => ?_,
    fun hbehind => congrArg some (jpegGetMoreData_of_behind hbehind)⟩
  -- what lies ahead is a part of what the whole file filters to
  obtain ⟨hin', hunread'⟩ := run_unread hin hwithin
  refine ⟨hin'.off_le, fun k hk hlen => ?_⟩
  rw [hunread, hfile, unstuff_marked_append hmark] at hunread'
  -- the next bytes of the buffer are the first ones of it
  have hwindow : Mem.load v'.ucFileBuf v'.iVLCOff k = (unread v').take k := by
    rw [unread, List.take_append_of_le_length (by rw [Mem.length_load]; omega),
      show v'.iVLCSize - v'.iVLCOff = k + (v'.iVLCSize - v'.iVLCOff - k) by omega, Mem.load_add,
      List.take_left' (Mem.length_load _ _ _)]
  rw [hwindow, hunread', List.drop_append_of_le_length (by omega),
    List.take_append_of_le_length (by rw [List.length_drop]; omega)]

/-- The bytes of a list, and zeros behind them. -/
def bytesAt (l : List UInt8) : Nat → UInt8 := fun i => l[i]?.getD 0

/-- A header of 48 bytes in the buffer, and `n` bytes of data with an FF behind them. What belongs
    to the FF is still in the file. -/
def splitMarker (n : Nat) : Vlc where
  ucFileBuf := fun i => if i = 48 + n then 0xff else 1
  iVLCOff := 0
  iVLCSize := 0
  ucFF := false
  bb := ⟨0, 0, 0⟩
  file := ⟨0, 4, bytesAt [0, 2, 0xff, 0xd9]⟩

section

variable {n : Nat}

/-- The data in the buffer. -/
theorem load_splitMarker (n : Nat) :
    Mem.load (splitMarker n).ucFileBuf 48 (n + 1) = List.replicate n 1 ++ [0xff] := by
  have hbyte : (splitMarker n).ucFileBuf (48 + n) = 0xff := if_pos rfl
  rw [Mem.load_add, show Mem.load _ (48 + n) 1 = [(splitMarker n).ucFileBuf (48 + n)] from rfl,
    hbyte]
  congr 1
  refine List.eq_replicate_iff.mpr ⟨Mem.length_load _ _ _, fun b hb => ?_⟩
  obtain ⟨i, hi, rfl⟩ := List.mem_iff_getElem.mp hb
  rw [Mem.length_load] at hi
  have hcell := Mem.getElem?_load (splitMarker n).ucFileBuf (p := 48) hi
  rw [List.getElem?_eq_getElem (by rwa [Mem.length_load]), Option.some.injEq] at hcell
  exact hcell.trans (if_neg (by omega))

/-- There is so much data that the file is not read for now. -/
theorem startScan_splitMarker (hn : 1984 ≤ n) : ∃ buf,
    (splitMarker n).startScan (48 + (n + 1)) 48 =
      ⟨buf, 0, n, true, ⟨0, 0, 0⟩, (splitMarker n).file⟩ := by
  have hraw : unstuff false (Mem.load (splitMarker n).ucFileBuf 48 (48 + (n + 1) - 48)) =
      (true, List.replicate n 1) := by
    rw [Nat.add_sub_cancel_left, load_splitMarker, unstuff_replicate_append (by decide)]
    simp [unstuff, unstuffStep, Transducer.run]
  rw [startScan_eq _ _ rfl, filteredStart, hraw]
  dsimp only
  rw [List.length_replicate, Vlc.jpegGetMoreData, if_pos (.inl hn)]
  exact ⟨_, rfl⟩

/-- With the file it is one interval and its marker. -/
theorem file_splitMarker (n : Nat) :
    Mem.load (splitMarker n).ucFileBuf 48 (48 + (n + 1) - 48) ++ fileRest (splitMarker n).file =
      marked [(List.replicate n 1 ++ [0xff, 2], 0xd9)] ++ [] := by
  rw [Nat.add_sub_cancel_left, load_splitMarker]
  simp [marked, stuff, List.flatMap_replicate]
  rfl

/-- At byte `n - 9` the rest of the file is read, and the FF is found to be data. -/
theorem getMoreData_splitMarker (buf : Nat → UInt8) (hn : 1984 ≤ n) :
    ∃ v', (⟨buf, n - 9, n, true, ⟨0, 0, 0⟩, (splitMarker n).file⟩ : Vlc).jpegGetMoreData = v' ∧
      v'.iVLCOff = 0 ∧ v'.iVLCSize = 11 := by
  have hpos : n - 9 ≠ 0 := by omega
  have hleft : n - (n - 9) = 9 := by omega
  have hfull : ¬ (n - (n - 9) ≥ jpegFileBufSize - 64 ∨ n < n - 9) := by
    simp only [jpegFileBufSize]
    omega
  rw [Vlc.jpegGetMoreData, if_neg hfull, Vlc.moveDown, if_pos hpos]
  dsimp only
  rw [hleft, fill_eq ⟨(by decide : 0 < 4), (by decide : 9 < jpegFileBufSize - 64)⟩]
  exact ⟨_, rfl, rfl, rfl⟩

end

/-- The file is read when the decoder has come to byte 1990. -/
theorem coded_bytes_delivered_splitMarker :
    ∃ v', Lts.Run vlcStep (fun _ _ => True) ((splitMarker 1999).startScan 2048 48)
        [.advance 1990, .getMoreData, .advance 8] v' ∧
      Mem.load v'.ucFileBuf v'.iVLCOff 3 = [1, 0xff, 2] := by
  -- a name for the number, so that no list of that length is evaluated
  obtain ⟨n, hn⟩ : ∃ n, n = 1999 := ⟨_, rfl⟩
  obtain ⟨buf, hstart⟩ := startScan_splitMarker (n := n) (by omega)
  obtain ⟨v', hmore, hoff, hsize⟩ := getMoreData_splitMarker buf (n := n) (by omega)
  rw [show n - 9 = 0 + 1990 by omega] at hmore
  have hrun : Lts.Run vlcStep WithinData ((splitMarker n).startScan (48 + (n + 1)) 48)
      [.advance 1990, .getMoreData, .advance 8] { v' with iVLCOff := v'.iVLCOff + 8 } := by
    rw [hstart]
    refine .cons ?_ rfl (.cons ?_ (congrArg some hmore) (.cons ?_ rfl (.nil _)))
    · simp only [WithinData, advanced]
      omega
    · simp only [WithinData, advanced]
      omega
    · simp only [WithinData, advanced, hoff, hsize]
      omega
  have hany := hrun.mono fun _ _ _ => trivial
  have hbytes := ((coded_bytes_delivered rfl (by simp only [jpegFileBufSize]; omega) (by simp)
    (file_splitMarker n) hany).2.1 hrun).2 3 (by simp only [hoff, hsize]; omega)
    (by simp only [advanced, List.flatMap_cons, List.flatMap_nil, List.length_append,
      List.length_replicate, List.length_cons, List.length_nil]; omega)
  have hwindow : ([(List.replicate n 1 ++ [(0xff : UInt8), 2], (0xd9 : UInt8))].flatMap
      Prod.fst).drop 1998 = [1, 0xff, 2] := by
    rw [List.flatMap_cons, List.flatMap_nil, List.append_nil,
      List.drop_append_of_le_length (by rw [List.length_replicate]; omega), List.drop_replicate,
      show n - 1998 = 1 by omega]
    rfl
  rw [hn] at hany
  refine ⟨_, hany, hbytes.trans ?_⟩
  rw [show advanced [.advance 1990, .getMoreData, .advance 8] = 1998 from rfl, hwindow]
  rfl

end Ivy.Spec
