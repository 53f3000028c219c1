import Ivy.ForStd.BitField
import Ivy.Native.JpegMcu
import Mathlib.Data.UInt
import Mathlib.Tactic.IntervalCases

/-!
# The bit buffer of the JPEG decoder

The decoder is at a bit position of the data, and looks at it through `ulBits`. When the buffer has
been filled in the meantime the word may be out of date, but only behind the end of the data at the
time when it was loaded; `Fresh` says up to which bit it can be relied on.
-/

namespace Ivy.Spec

open Ivy.Native Ivy.Bits

/-! ## Words -/

/-- `MOTOLONG` reads a word, the first byte highest. -/
theorem motoLong_toNat (buf : Nat → UInt8) (p : Nat) : (motoLong buf p).toNat = word buf p := by
  have h0 := (buf p).toNat_lt
  have h1 := (buf (p + 1)).toNat_lt
  have h2 := (buf (p + 2)).toNat_lt
  have h3 := (buf (p + 3)).toNat_lt
  simp only [motoLong, word, UInt32.toNat_add, UInt32.toNat_shiftLeft, UInt8.toNat_toUInt32,
    UInt32.reduceToNat, Nat.reduceMod, Nat.shiftLeft_eq]
  omega

/-- The bytes of `ulBits`, in front of the rest of the buffer. -/
def seen (buf : Nat → UInt8) (bb : BufferedBits) : Nat → UInt8 :=
  Mem.store buf bb.pBuf [(bb.ulBits >>> 24).toUInt8, (bb.ulBits >>> 16).toUInt8,
    (bb.ulBits >>> 8).toUInt8, bb.ulBits.toUInt8]

/-- The word in the register is what the decoder sees. -/
theorem word_seen (buf : Nat → UInt8) (bb : BufferedBits) :
    word (seen buf bb) bb.pBuf = bb.ulBits.toNat := by
  have hlt := bb.ulBits.toNat_lt
  -- the four bytes of the register
  have hcell : ∀ i x, [(bb.ulBits >>> 24).toUInt8, (bb.ulBits >>> 16).toUInt8,
      (bb.ulBits >>> 8).toUInt8, bb.ulBits.toUInt8][i]? = some x → seen buf bb (bb.pBuf + i) = x :=
    fun i x hx => Mem.store_of_getElem? buf hx
  have h0 := hcell 0 _ rfl
  rw [Nat.add_zero] at h0
  rw [word, h0, hcell 1 _ rfl, hcell 2 _ rfl, hcell 3 _ rfl]
  simp only [UInt32.toNat_toUInt8, UInt32.toNat_shiftRight, UInt32.reduceToNat, Nat.reduceMod,
    Nat.shiftRight_eq_div_pow]
  omega

/-- The bit that the decoder is at. -/
def bitPos (bb : BufferedBits) : Nat := 8 * bb.pBuf + bb.ulBitOff.toNat

/-- Up to bit `E` the decoder sees the bits of the buffer, and it is not behind the word. -/
structure Fresh (buf : Nat → UInt8) (bb : BufferedBits) (E : Nat) : Prop where
  agree : ∀ i < E, bit (seen buf bb) i = bit buf i
  off_le : bb.ulBitOff.toNat ≤ 32

/-- What the buffer holds is seen. -/
theorem Fresh.holds {buf : Nat → UInt8} {bb : BufferedBits} {E p : Nat} {bits : List Bool}
    (h : Fresh buf bb E) (hE : p + bits.length ≤ E) (hbits : Holds buf p bits) :
    Holds (seen buf bb) p bits := by
  intro i b hi
  have hlt : i < bits.length := (List.getElem?_eq_some_iff.mp hi).1
  rw [h.agree (p + i) (by omega)]
  exact hbits i b hi

/-- A word that has just been loaded. -/
theorem seen_of_load {buf : Nat → UInt8} {bb : BufferedBits}
    (h : bb.ulBits = motoLong buf bb.pBuf) : seen buf bb = buf := by
  have hword : bb.ulBits.toNat = word buf bb.pBuf := by rw [h, motoLong_toNat]
  have h0 := (buf bb.pBuf).toNat_lt
  have h1 := (buf (bb.pBuf + 1)).toNat_lt
  have h2 := (buf (bb.pBuf + 2)).toNat_lt
  have h3 := (buf (bb.pBuf + 3)).toNat_lt
  -- a word is its four bytes
  have hbytes : [(bb.ulBits >>> 24).toUInt8, (bb.ulBits >>> 16).toUInt8,
      (bb.ulBits >>> 8).toUInt8, bb.ulBits.toUInt8] = Mem.load buf bb.pBuf 4 := by
    show _ = [buf bb.pBuf, buf (bb.pBuf + 1), buf (bb.pBuf + 2), buf (bb.pBuf + 3)]
    simp only [List.cons.injEq, and_true, ← UInt8.toNat_inj, UInt32.toNat_toUInt8,
      UInt32.toNat_shiftRight, UInt32.reduceToNat, Nat.reduceMod, Nat.shiftRight_eq_div_pow, hword,
      word]
    omega
  rw [seen, hbytes, Mem.store_load_self]

/-! ## Loading the word again -/

section

variable (buf : Nat → UInt8) (bb : BufferedBits)

/-- A refill leaves the position, -/
theorem bitPos_refill : bitPos (bb.refill buf) = bitPos bb := by
  rw [BufferedBits.refill]
  split
  · simp only [bitPos, UInt32.toNat_shiftRight, UInt32.toNat_and, UInt32.reduceToNat, Nat.reduceMod,
      Nat.shiftRight_eq_div_pow]
    rw [show (7 : Nat) = 2 ^ 3 - 1 from rfl, Nat.and_two_pow_sub_one_eq_mod]
    omega
  · rfl

/-- with sixteen bits or more in the register. -/
theorem refill_off_le : (bb.refill buf).ulBitOff.toNat ≤ 15 := by
  rw [BufferedBits.refill]
  split
  · simp only [UInt32.toNat_and, UInt32.reduceToNat]
    rw [show (7 : Nat) = 2 ^ 3 - 1 from rfl, Nat.and_two_pow_sub_one_eq_mod]
    omega
  · rename_i h
    simpa [UInt32.lt_iff_toNat_lt] using h

variable {buf bb}

/-- A refill reads from the buffer. -/
theorem Fresh.refill {E : Nat} (h : Fresh buf bb E) : Fresh buf (bb.refill buf) E := by
  refine ⟨?_, Nat.le_trans (refill_off_le buf bb) (by decide)⟩
  rw [BufferedBits.refill]
  split
  · intro i _
    rw [seen_of_load rfl]
  · exact h.agree

/-- Skipping reads nothing. -/
theorem Fresh.skip {E : Nat} (h : Fresh buf bb E) {n : UInt32} (hoff : bb.ulBitOff.toNat ≤ 15)
    (hn : n.toNat ≤ 16) : Fresh buf (bb.skip n) E := by
  refine ⟨h.agree, ?_⟩
  simp only [BufferedBits.skip, UInt32.toNat_add]
  omega

/-- Skipping moves the position. -/
theorem bitPos_skip {n : UInt32} (hoff : bb.ulBitOff.toNat ≤ 15) (hn : n.toNat ≤ 16) :
    bitPos (bb.skip n) = bitPos bb + n.toNat := by
  simp only [bitPos, BufferedBits.skip, UInt32.toNat_add]
  omega

/-! ## Reading bits -/

/-- The next bits are those of the buffer at the position. -/
theorem peek_toNat {n : UInt32} (hoff : bb.ulBitOff.toNat ≤ 15) (hlow : 1 ≤ n.toNat)
    (hn : n.toNat ≤ 16) : (bb.peek n).toNat = field (seen buf bb) (bitPos bb) n.toNat := by
  have hpow : 2 ^ n.toNat ≤ 2 ^ 16 := Nat.pow_le_pow_right (by decide) hn
  have hsub : (32 - n).toNat = 32 - n.toNat :=
    UInt32.toNat_sub_of_le _ _
      (UInt32.le_iff_toNat_le.mpr (by simp only [UInt32.reduceToNat]; omega))
  -- neither difference wraps round
  have hshift : (32 - n - bb.ulBitOff).toNat = 32 - n.toNat - bb.ulBitOff.toNat := by
    rw [UInt32.toNat_sub_of_le _ _ (UInt32.le_iff_toNat_le.mpr (by omega)), hsub]
  have hone : ((1 : UInt32) <<< n).toNat = 2 ^ n.toNat := by
    rw [UInt32.toNat_shiftLeft, Nat.mod_eq_of_lt (show n.toNat < 32 by omega), UInt32.toNat_one,
      Nat.one_shiftLeft, Nat.mod_eq_of_lt (by omega)]
  have hmask : ((1 : UInt32) <<< n - 1).toNat = 2 ^ n.toNat - 1 := by
    have hpos := Nat.two_pow_pos n.toNat
    rw [UInt32.toNat_sub_of_le _ _ (UInt32.le_iff_toNat_le.mpr (by rw [hone]; exact hpos)), hone]
    rfl
  rw [BufferedBits.peek, UInt32.toNat_and, hmask, Nat.and_two_pow_sub_one_eq_mod,
    UInt32.toNat_shiftRight, hshift,
    Nat.mod_eq_of_lt (show 32 - n.toNat - bb.ulBitOff.toNat < 32 by omega),
    Nat.shiftRight_eq_div_pow, ← word_seen buf bb, field_of_word _ (by omega), bitPos]

/-- Bits that are shifted to the top of the word and down again. -/
theorem top_bits (buf : Nat → UInt8) {n : Nat} (hoff : bb.ulBitOff.toNat ≤ 15) (hn : n ≤ 16) :
    (bb.ulBits <<< bb.ulBitOff).toNat / 2 ^ (32 - n) = field (seen buf bb) (bitPos bb) n := by
  rw [UInt32.toNat_shiftLeft, Nat.mod_eq_of_lt (show bb.ulBitOff.toNat < 32 by omega),
    Nat.shiftLeft_eq, bitPos,
    ← field_of_word (seen buf bb) (show bb.ulBitOff.toNat + n ≤ 32 by omega), word_seen]
  -- both powers of two have the factor that was shifted in
  have htop : 2 ^ 32 = 2 ^ (32 - bb.ulBitOff.toNat) * 2 ^ bb.ulBitOff.toNat := by
    rw [← Nat.pow_add]
    congr 1
    omega
  have hlow : 2 ^ (32 - n) = 2 ^ (32 - n - bb.ulBitOff.toNat) * 2 ^ bb.ulBitOff.toNat := by
    rw [← Nat.pow_add]
    congr 1
    omega
  have hsplit : 2 ^ (32 - bb.ulBitOff.toNat) = 2 ^ (32 - n - bb.ulBitOff.toNat) * 2 ^ n := by
    rw [← Nat.pow_add]
    congr 1
    omega
  rw [htop, Nat.mul_mod_mul_right, hlow, Nat.mul_div_mul_right _ _ (Nat.two_pow_pos _), hsplit,
    Nat.mod_mul_right_div_self]

end

/-- All bits of the mask are the inverse of the sign bit. -/
theorem signMask_eq (x : UInt32) :
    ~~~ (x.toInt32 >>> 31).toUInt32 = if x.toNat < 2 ^ 31 then 0xffffffff else 0 := by
  have hshift : (x.toInt32 >>> 31).toUInt32.toBitVec = x.toBitVec.sshiftRight 31 := by
    rw [Int32.toBitVec_toUInt32, Int32.toBitVec_shiftRight, UInt32.toBitVec_toInt32,
      show BitVec.smod (Int32.toBitVec 31) 32 = 31#32 by decide, BitVec.sshiftRight_eq']
    rfl
  -- every bit of the shifted word is the sign bit
  have hbit : ∀ i (hi : i < 32), (x.toBitVec.sshiftRight 31)[i] = decide (2 ^ 31 ≤ x.toNat) := by
    intro i hi
    have hmsb : x.toBitVec.msb = decide (2 ^ 31 ≤ x.toNat) := BitVec.msb_eq_decide _
    rw [BitVec.getElem_sshiftRight, ← hmsb]
    split
    · rename_i h
      obtain rfl : i = 0 := by omega
      rw [BitVec.msb_eq_getLsbD_last]
      rfl
    · rfl
  apply UInt32.toBitVec_inj.mp
  by_cases hx : x.toNat < 2 ^ 31
  · rw [UInt32.toBitVec_not, hshift, if_pos hx]
    show _ = BitVec.allOnes 32
    ext i hi
    rw [BitVec.getElem_not, hbit i hi, decide_eq_false (by omega), BitVec.getElem_allOnes]
    rfl
  · rw [UInt32.toBitVec_not, hshift, if_neg hx]
    show _ = 0#32
    ext i hi
    rw [BitVec.getElem_not, hbit i hi, decide_eq_true (by omega), BitVec.getElem_zero]
    rfl

/-- The value of `n` bits that spell `v`: the first half of the values is negative. -/
def extend (n v : Nat) : Int := if v < 2 ^ (n - 1) then (v : Int) - (2 ^ n - 1) else v

/-- The cast to a signed number. -/
theorem toInt32_eq_ofInt (x : UInt32) : x.toInt32 = Int32.ofInt x.toNat := by
  apply Int32.toBitVec_inj.mp
  rw [UInt32.toBitVec_toInt32, Int32.toBitVec_ofInt, BitVec.ofInt_natCast]
  exact (BitVec.ofNat_toNat 32 x.toBitVec).symm

/-- The extra bits stand for a signed value. -/
theorem extra_eq (buf : Nat → UInt8) {bb : BufferedBits} {n : UInt32}
    (hoff : bb.ulBitOff.toNat ≤ 15) (hlow : 1 ≤ n.toNat) (hn : n.toNat ≤ 15) :
    (bb.extra n).toInt32 =
      Int32.ofInt (extend n.toNat (field (seen buf bb) (bitPos bb) n.toNat)) := by
  have hsub : (32 - n).toNat % 32 = 32 - n.toNat := by
    rw [UInt32.toNat_sub_of_le _ _
      (UInt32.le_iff_toNat_le.mpr (by simp only [UInt32.reduceToNat]; omega))]
    simp only [UInt32.reduceToNat]
    omega
  have hcode : ((bb.ulBits <<< bb.ulBitOff) >>> (32 - n)).toNat =
      field (seen buf bb) (bitPos bb) n.toNat := by
    rw [UInt32.toNat_shiftRight, hsub, Nat.shiftRight_eq_div_pow, top_bits buf hoff (by omega)]
  -- the first bit of the field decides on the sign
  have hsign : (bb.ulBits <<< bb.ulBitOff).toNat < 2 ^ 31 ↔
      field (seen buf bb) (bitPos bb) n.toNat < 2 ^ (n.toNat - 1) := by
    have htop := top_bits buf (n := 1) hoff (by decide)
    have hsplit := field_add (seen buf bb) (bitPos bb) 1 (n.toNat - 1)
    have hrest := field_lt (seen buf bb) (bitPos bb + 1) (n.toNat - 1)
    rw [show 1 + (n.toNat - 1) = n.toNat by omega, ← htop] at hsplit
    have hword := (bb.ulBits <<< bb.ulBitOff).toNat_lt
    rcases (show (bb.ulBits <<< bb.ulBitOff).toNat / 2 ^ (32 - 1) = 0 ∨
      (bb.ulBits <<< bb.ulBitOff).toNat / 2 ^ (32 - 1) = 1 by omega) with h | h
    · rw [h] at hsplit
      omega
    · rw [h] at hsplit
      omega
  have hones : ((0xffffffff : UInt32) >>> (32 - n)).toNat = 2 ^ n.toNat - 1 := by
    rw [UInt32.toNat_shiftRight, hsub, Nat.shiftRight_eq_div_pow]
    generalize n.toNat = k at hlow hn
    interval_cases k <;> rfl
  rw [BufferedBits.extra, signMask_eq, UInt32.toInt32_sub, toInt32_eq_ofInt, hcode, extend]
  by_cases hneg : field (seen buf bb) (bitPos bb) n.toNat < 2 ^ (n.toNat - 1)
  · have hpos := Nat.two_pow_pos n.toNat
    have hcast : ((2 ^ n.toNat : Nat) : Int) = 2 ^ n.toNat := Int.natCast_pow 2 n.toNat
    rw [if_pos (hsign.mpr hneg), if_pos hneg, toInt32_eq_ofInt, hones, ← Int32.ofInt_sub, ← hcast]
    congr 2
    omega
  · rw [if_neg (mt hsign.mp hneg), if_neg hneg, UInt32.zero_shiftRight]
    exact Int32.sub_zero _

end Ivy.Spec
