import Ivy.Native.JpegHuffman
import Mathlib.Algebra.Group.Nat.Defs
import Mathlib.Data.List.Basic

/-!
# The expanded Huffman tables decode the canonical code

The loops of `JPEGMakeHuffTables` enter the code words of the canonical code one after the other,
each one into the entries of all windows that begin with it. So a lookup finds the one code word
that the data goes on with, and nothing if there is none.
-/

namespace Ivy.Spec

open Ivy.Native Ivy.Canonical

/-! ## The code of a table -/

/-- The symbols of a table by the length of their codes, from the length `iBitNum` on for `n`
    lengths. -/
def symbolGroups (vals : Nat → UInt8) (pBits : Nat) : Nat → Nat → Nat → List (List UInt8)
  | 0, _, _ => []
  | n + 1, iBitNum, p =>
    let iLen := (vals (pBits + (iBitNum - 1))).toNat
    Mem.load vals p iLen :: symbolGroups vals pBits n (iBitNum + 1) (p + iLen)

/-- The symbols of table `i`: the DC tables are 0 to 3, the AC tables 4 to 7. -/
def tableGroups (vals : Nat → UInt8) (i : Nat) : List (List UInt8) :=
  symbolGroups vals (i * huffTablen) 16 1 (i * huffTablen + 16)

/-- The code words of table `i`. -/
def tableCodes (vals : Nat → UInt8) (i : Nat) : List (Codeword UInt8) :=
  codewords 1 0 (tableGroups vals i)

/-- The code lengths of table `i` can be those of a prefix code, and the code word of only ones is
    not used, as it is reserved. -/
def Proper (vals : Nat → UInt8) (i : Nat) : Prop := windows 16 1 (tableGroups vals i) < 2 ^ 16

instance (vals : Nat → UInt8) (i : Nat) : Decidable (Proper vals i) :=
  inferInstanceAs (Decidable (_ < _))

/-- One group of symbols for each length. -/
@[simp] theorem length_symbolGroups (vals : Nat → UInt8) (pBits n iBitNum p : Nat) :
    (symbolGroups vals pBits n iBitNum p).length = n := by
  induction n generalizing iBitNum p with
  | zero => rfl
  | succ n ih => simp [symbolGroups, ih]

/-- There are sixteen lengths. -/
theorem length_tableGroups (vals : Nat → UInt8) (i : Nat) : (tableGroups vals i).length = 16 :=
  length_symbolGroups _ _ _ _ _

/-- Code words have 1 to 16 bits, and are not all ones. -/
theorem Proper.bounds {vals : Nat → UInt8} {i : Nat} {c : Codeword UInt8} (h : Proper vals i)
    (hc : c ∈ tableCodes vals i) : (1 ≤ c.len ∧ c.len ≤ 16) ∧ c.code + 1 < 2 ^ c.len := by
  obtain ⟨hlen, -, hhigh⟩ := codewords_bounds (W := 16) (by rw [length_tableGroups]) hc
  refine ⟨hlen, Nat.lt_of_mul_lt_mul_right (a := 2 ^ (16 - c.len)) ?_⟩
  rw [← Nat.pow_add, Nat.add_sub_cancel' hlen.2]
  unfold Proper at h
  omega

/-- The codes of a table are in ascending order. -/
theorem tableCodes_pairwise (vals : Nat → UInt8) (i : Nat) :
    (tableCodes vals i).Pairwise (Codeword.Before 16) :=
  codewords_pairwise _ (by rw [length_tableGroups])

/-! ## The loops enter the code words -/

section

variable {β : Type} {enter : Codeword UInt8 → (Nat → β) → Option (Nat → β)} {vals : Nat → UInt8}

/-- Code words above a maximal length cannot be entered. -/
def limited (enter : Codeword UInt8 → (Nat → β) → Option (Nat → β)) (iMaxLength : Nat)
    (c : Codeword UInt8) (table : Nat → β) : Option (Nat → β) :=
  if c.len > iMaxLength then none else enter c table

/-- The table that a loop leaves behind, and whether it came to its end. -/
def tableOf (r : CodeLoop β × Bool) : (Nat → β) × Bool := (r.1.table, r.2)

/-- The inner loop enters the codes of one length in order. -/
theorem codesOfLength_eq (enter : Codeword UInt8 → (Nat → β) → Option (Nat → β))
    (vals : Nat → UInt8) {iBitNum iMaxLength : Nat} (hmax : ¬ iBitNum > iMaxLength) (iLen : Nat)
    (s : CodeLoop β) :
    tableOf (codesOfLength enter vals iBitNum iLen s) =
        enterAll (limited enter iMaxLength)
          (consecutive iBitNum s.cc (Mem.load vals s.p iLen)) s.table ∧
      ((codesOfLength enter vals iBitNum iLen s).2 = true →
        (codesOfLength enter vals iBitNum iLen s).1.cc = s.cc + iLen ∧
          (codesOfLength enter vals iBitNum iLen s).1.p = s.p + iLen) := by
  induction iLen generalizing s with
  | zero => exact ⟨rfl, fun _ => ⟨rfl, rfl⟩⟩
  | succ iLen ih =>
    rw [Nat.add_comm iLen 1, Mem.load_add, show Mem.load vals s.p 1 = [vals s.p] from rfl,
      List.singleton_append, consecutive, enterAll, limited, if_neg hmax, Nat.add_comm 1 iLen,
      codesOfLength]
    cases enter ⟨iBitNum, s.cc, vals s.p⟩ s.table with
    | none => exact ⟨rfl, fun h => by cases h⟩
    | some table =>
      -- the next code is the next number, of the next symbol
      obtain ⟨htable, hnext⟩ := ih ⟨s.cc + 1, s.p + 1, table⟩
      refine ⟨htable, fun h => ?_⟩
      obtain ⟨hcc, hp⟩ := hnext h
      simp only at hcc hp ⊢
      omega

/-- The loop over the lengths enters the canonical code. -/
theorem codesOfTable_eq (iMaxLength pBits n iBitNum : Nat) (s : CodeLoop β) :
    tableOf (codesOfTable enter vals iMaxLength pBits n iBitNum s) =
      enterAll (limited enter iMaxLength)
        (codewords iBitNum s.cc (symbolGroups vals pBits n iBitNum s.p)) s.table := by
  induction n generalizing iBitNum s with
  | zero => rfl
  -- the codes of the first length are entered, then those of the longer ones
  | succ n ih =>
    rw [symbolGroups, codewords, codesOfTable]
    generalize (vals (pBits + (iBitNum - 1))).toNat = iLen
    simp only [Mem.length_load]
    by_cases hlong : iBitNum > iMaxLength ∧ iLen > 0
    · -- a length that is too long: the first of its codes fails
      obtain ⟨k, rfl⟩ : ∃ k, iLen = 1 + k := ⟨iLen - 1, by omega⟩
      rw [if_pos hlong, Mem.load_add, show Mem.load vals s.p 1 = [vals s.p] from rfl,
        List.singleton_append, consecutive, List.cons_append, enterAll, limited, if_pos hlong.1]
      rfl
    · rw [if_neg hlong]
      by_cases hmax : iBitNum > iMaxLength
      · obtain rfl : iLen = 0 := by omega
        simp only [codesOfLength, Mem.load_zero, consecutive, List.nil_append, Nat.add_zero]
        rw [ih, Nat.shiftLeft_eq, Nat.mul_comm, Nat.pow_one]
      · obtain ⟨htable, hnext⟩ := codesOfLength_eq enter vals hmax iLen s
        rw [enterAll_append, ← htable]
        generalize codesOfLength enter vals iBitNum iLen s = r at hnext
        obtain ⟨s', ok⟩ := r
        cases ok with
        | false => rfl
        | true =>
          obtain ⟨hcc, hp⟩ := hnext rfl
          simp only at hcc hp
          show tableOf (codesOfTable enter vals iMaxLength pBits n (iBitNum + 1)
            { s' with cc := s'.cc <<< 1 }) = enterAll _ _ s'.table
          rw [ih, ← hp, ← hcc, Nat.shiftLeft_eq, Nat.mul_comm, Nat.pow_one]

end

/-! ## The entries of a code word -/

/-- A DC code is looked up by 6 of 12 bits, or by those behind 5 ones. -/
def dcLevels : TwoLevel := ⟨12, 6, 5, by decide, by decide⟩

/-- An AC code is looked up by 10 of 16 bits, or by those behind 6 ones. -/
def acLevels : TwoLevel := ⟨16, 10, 6, by decide, by decide⟩

/-- The places of a DC code are those of a two level table, -/
theorem dcSlot_eq (c : Codeword UInt8) : dcSlot c.len c.code = dcLevels.slot c := by
  simp only [dcSlot, TwoLevel.slot, TwoLevel.long, dcLevels, Nat.shiftRight_eq_div_pow,
    Nat.shiftLeft_eq, Nat.and_two_pow_sub_one_eq_mod _ 7]
  rfl

/-- and so are those of an AC code. -/
theorem acSlot_eq (c : Codeword UInt8) : acSlot c.len c.code = acLevels.slot c := by
  simp only [acSlot, TwoLevel.slot, TwoLevel.long, acLevels, Nat.shiftRight_eq_div_pow,
    Nat.shiftLeft_eq, Nat.and_two_pow_sub_one_eq_mod _ 10]
  rfl

/-- The decoder looks twelve bits up in the two level table, -/
theorem dcIndex_toNat {w : UInt32} (hw : w.toNat < 2 ^ 12) :
    (dcIndex w).toNat = dcLevels.index w.toNat := by
  -- `0xf80` is where the codes with five ones begin
  have hones : dcLevels.ones = 3968 := rfl
  have hlong : dcLevels.long = 128 := rfl
  have hge : w ≥ 0xf80 ↔ 3968 ≤ w.toNat := UInt32.le_iff_toNat_le
  rw [dcIndex, TwoLevel.index, hones, hlong]
  simp only [hge]
  split
  · rw [UInt32.toNat_and, show (0xff : UInt32).toNat = 2 ^ 8 - 1 from rfl,
      Nat.and_two_pow_sub_one_eq_mod]
    omega
  · rw [UInt32.toNat_shiftRight, show (6 : UInt32).toNat % 32 = 6 from rfl,
      Nat.shiftRight_eq_div_pow]
    rfl

/-- and sixteen bits. -/
theorem acIndex_toNat {w : UInt32} (hw : w.toNat < 2 ^ 16) :
    (acIndex w).toNat = acLevels.index w.toNat := by
  -- `0xfc00` is where the codes with six ones begin
  have hones : acLevels.ones = 64512 := rfl
  have hlong : acLevels.long = 1024 := rfl
  have hge : w ≥ 0xfc00 ↔ 64512 ≤ w.toNat := UInt32.le_iff_toNat_le
  rw [acIndex, TwoLevel.index, hones, hlong]
  simp only [hge]
  split
  · rw [UInt32.toNat_and, show (0x7ff : UInt32).toNat = 2 ^ 11 - 1 from rfl,
      Nat.and_two_pow_sub_one_eq_mod]
    omega
  · rw [UInt32.toNat_shiftRight, show (6 : UInt32).toNat % 32 = 6 from rfl,
      Nat.shiftRight_eq_div_pow]
    rfl

/-- A code of table `x.1`, with tables of `size` entries: the cell is one of its entries. -/
def InBlock (t : TwoLevel) (size : Nat) (x : Nat × Codeword UInt8) (a : Nat) : Prop :=
  ∃ o k, t.slot x.2 = some (o, k) ∧ x.1 * size + o ≤ a ∧ a < x.1 * size + o + 2 ^ k

/-- The order in which codes are entered. -/
def Precedes (W : Nat) (x y : Nat × Codeword UInt8) : Prop :=
  x.1 < y.1 ∨ x.1 = y.1 ∧ x.2.Before W y.2

section

variable {t : TwoLevel} {size a : Nat} {x y : Nat × Codeword UInt8}

/-- The places of a code are in its own table. -/
theorem InBlock.bounds (h : InBlock t size x a) (hx : t.Fits x.2) :
    x.1 * size ≤ a ∧ a < x.1 * size + 2 * t.long := by
  obtain ⟨o, k, hslot, hlow, hhigh⟩ := h
  have hle := TwoLevel.slot_le hx hslot
  omega

/-- Different codes have different entries. -/
theorem InBlock.disjoint (hsize : 2 * t.long ≤ size) (hx : t.Fits x.2) (hy : t.Fits y.2)
    (hxy : Precedes t.W x y) (h : InBlock t size x a) : ¬ InBlock t size y a := by
  intro h'
  obtain ⟨-, hhigh⟩ := h.bounds hx
  obtain ⟨hlow, -⟩ := h'.bounds hy
  -- codes of different tables, or of the same one
  rcases hxy with hlt | ⟨heq, hbefore⟩
  · have hnext : (x.1 + 1) * size ≤ y.1 * size := Nat.mul_le_mul_right size hlt
    rw [Nat.succ_mul] at hnext
    omega
  · obtain ⟨o, k, hslot, hlow, hhigh⟩ := h
    obtain ⟨o', k', hslot', hlow', hhigh'⟩ := h'
    rw [← heq] at hlow' hhigh'
    refine TwoLevel.slot_disjoint (a := a - x.1 * size) hx hy hbefore hslot hslot' ?_ ?_ ?_ <;>
      omega

/-- A window is looked up in the block of a code of its table exactly if it begins with it. -/
theorem inBlock_index_iff {w : Nat} (hx : t.Fits x.2) (hslot : (t.slot x.2).isSome)
    (hw : w < 2 ^ t.W) : InBlock t size x (x.1 * size + t.index w) ↔ x.2.Begins t.W w := by
  obtain ⟨⟨o, k⟩, hok⟩ := Option.isSome_iff_exists.mp hslot
  rw [← TwoLevel.index_mem_slot_iff hx hw hok]
  constructor
  · intro ⟨o', k', hslot', hlow, hhigh⟩
    obtain ⟨rfl, rfl⟩ := Prod.mk.inj (Option.some.inj (hok.symm.trans hslot'))
    omega
  · intro ⟨hlow, hhigh⟩
    exact ⟨o, k, hok, by omega, by omega⟩

/-- A lookup in one table does not meet the codes of another one. -/
theorem not_inBlock_index {w i : Nat} (hsize : 2 * t.long ≤ size) (hx : t.Fits x.2)
    (hw : w < 2 ^ t.W) (hi : x.1 ≠ i) : ¬ InBlock t size x (i * size + t.index w) := by
  intro h
  obtain ⟨hlow, hhigh⟩ := h.bounds hx
  have hindex := TwoLevel.index_lt hw
  -- the tables lie behind each other
  rcases Nat.lt_or_gt_of_ne hi with hlt | hlt
  · have hnext : (x.1 + 1) * size ≤ i * size := Nat.mul_le_mul_right size hlt
    rw [Nat.succ_mul] at hnext
    omega
  · have hnext : (i + 1) * size ≤ x.1 * size := Nat.mul_le_mul_right size hlt
    rw [Nat.succ_mul] at hnext
    omega

end

/-! ### AC codes -/

/-- Enter a code into an AC table. -/
def acItem (bThumbnail : Bool) (x : Nat × Codeword UInt8) :
    (Nat → UInt16) → Option (Nat → UInt16) :=
  limited (acEnter bThumbnail (x.1 * huff11Size)) 16 x.2

def acCells (bThumbnail : Bool) (x : Nat × Codeword UInt8) (a : Nat) : Option UInt16 :=
  (acLevels.slot x.2).bind fun (o, k) =>
    Mem.cell (x.1 * huff11Size + o) (List.replicate (2 ^ k) (acEntry bThumbnail x.2)) a

section

variable {bThumbnail : Bool} {x y : Nat × Codeword UInt8} {a : Nat}

/-- What entering an AC code changes. -/
theorem acItem_cells (bThumbnail : Bool) (x : Nat × Codeword UInt8) (m m' : Nat → UInt16)
    (h : acItem bThumbnail x m = some m') (a : Nat) :
    m' a = (acCells bThumbnail x a).getD (m a) := by
  rw [acItem, limited] at h
  split at h
  · cases h
  · rw [acEnter, acSlot_eq] at h
    rw [acCells]
    cases hslot : acLevels.slot x.2 with
    | none => simp [hslot] at h
    | some ok =>
      rw [hslot] at h
      cases h
      exact Mem.store_eq_cell _ _ _ _

/-- Only the places of the code are written, -/
theorem inBlock_of_acCells (h : acCells bThumbnail x a ≠ none) :
    InBlock acLevels huff11Size x a := by
  rw [acCells] at h
  cases hslot : acLevels.slot x.2 with
  | none => simp [hslot] at h
  | some ok =>
    rw [hslot] at h
    obtain ⟨hlow, hhigh⟩ := Classical.not_not.mp (mt Mem.cell_eq_none_iff.mpr h)
    rw [List.length_replicate] at hhigh
    exact ⟨ok.1, ok.2, hslot, hlow, hhigh⟩

/-- and all of them. -/
theorem acCells_of_inBlock (h : InBlock acLevels huff11Size x a) :
    acCells bThumbnail x a = some (acEntry bThumbnail x.2) := by
  obtain ⟨o, k, hslot, hlow, hhigh⟩ := h
  rw [acCells, hslot, Option.bind_some]
  exact Mem.cell_replicate _ ⟨hlow, hhigh⟩

/-- The AC codes that can be entered. -/
theorem acItem_isSome_iff {m : Nat → UInt16} :
    (acItem bThumbnail x m).isSome ↔ x.2.len ≤ 16 ∧
      (x.2.len ≤ 10 ∨ 6 ≤ x.2.len ∧ x.2.code / 2 ^ (x.2.len - 6) = 63) := by
  rw [acItem, limited]
  split
  · simp
    omega
  · rw [acEnter, Option.isSome_map, acSlot_eq, TwoLevel.slot_isSome_iff]
    simp only [acLevels]
    omega

end

/-! ### DC codes -/

/-- Enter a code into a DC table. -/
def dcItem (ucMode : UInt8) (x : Nat × Codeword UInt8) : (Nat → UInt8) → Option (Nat → UInt8) :=
  limited (dcEnter ucMode (x.1 * dcTableSize)) 12 x.2

def dcCells (ucMode : UInt8) (x : Nat × Codeword UInt8) (a : Nat) : Option UInt8 :=
  (dcLevels.slot x.2).bind fun (o, k) =>
    (Mem.cell (x.1 * dcTableSize + o) (List.replicate (2 ^ k) (dcEntry ucMode x.2)) a).or
      (if precalculated ucMode x.2 then
        Mem.cell (x.1 * dcTableSize + o + 512) (dcCoeffs x.2.sym.toNat k) a
      else none)

section

variable {ucMode : UInt8} {x y : Nat × Codeword UInt8} {a : Nat}

/-- The cells of a DC code: its entries, and 512 behind them its coefficients. -/
theorem dcCells_eq {o k : Nat} (hslot : dcLevels.slot x.2 = some (o, k)) :
    dcCells ucMode x a =
      (Mem.cell (x.1 * dcTableSize + o) (List.replicate (2 ^ k) (dcEntry ucMode x.2)) a).or
        (if precalculated ucMode x.2 then
          Mem.cell (x.1 * dcTableSize + o + 512) (dcCoeffs x.2.sym.toNat k) a
        else none) := by
  rw [dcCells, hslot]
  rfl

/-- What entering a DC code changes. -/
theorem dcItem_cells (ucMode : UInt8) (x : Nat × Codeword UInt8) (m m' : Nat → UInt8)
    (h : dcItem ucMode x m = some m') (a : Nat) : m' a = (dcCells ucMode x a).getD (m a) := by
  rw [dcItem, limited] at h
  split at h
  · cases h
  · rw [dcEnter, dcSlot_eq] at h
    rw [dcCells]
    cases hslot : dcLevels.slot x.2 with
    | none => simp [hslot] at h
    | some ok =>
      rw [hslot] at h
      cases h
      simp only [Mem.store_eq_cell, Option.bind_some]
      split
      · rw [Mem.store_eq_cell]
        cases Mem.cell (x.1 * dcTableSize + ok.1)
          (List.replicate (2 ^ ok.2) (dcEntry ucMode x.2)) a <;> rfl
      · simp

/-- The DC codes that can be entered. -/
theorem dcItem_isSome_iff {m : Nat → UInt8} :
    (dcItem ucMode x m).isSome ↔ x.2.len ≤ 12 ∧
      (x.2.len ≤ 6 ∨ 5 ≤ x.2.len ∧ x.2.code / 2 ^ (x.2.len - 5) = 31) := by
  rw [dcItem, limited]
  split
  · simp
    omega
  · rw [dcEnter, Option.isSome_map, dcSlot_eq, TwoLevel.slot_isSome_iff]
    simp only [dcLevels]
    omega

/-- There is a coefficient for each entry. -/
theorem length_dcCoeffs {ucMag k : Nat} (h : ucMag ≤ k) : (dcCoeffs ucMag k).length = 2 ^ k := by
  rw [dcCoeffs, Mem.length_flatMap_replicate, ← Nat.pow_add, Nat.add_sub_cancel' h]

/-- The magnitude bits lie within the bits that a code is looked up by. -/
theorem sym_le_of_precalculated {c : Codeword UInt8} {o k : Nat} (h : precalculated ucMode c = true)
    (hslot : dcLevels.slot c = some (o, k)) : c.sym.toNat ≤ k := by
  simp only [precalculated, decide_eq_true_eq] at h
  rw [TwoLevel.slot] at hslot
  split at hslot
  · obtain ⟨-, rfl⟩ := Prod.mk.inj (Option.some.inj hslot)
    simp only [dcLevels]
    omega
  · split at hslot
    · obtain ⟨-, rfl⟩ := Prod.mk.inj (Option.some.inj hslot)
      simp only [dcLevels]
      omega
    · cases hslot

/-- A code is entered into its block, and into the one 512 cells behind it. -/
theorem inBlock_of_dcCells (h : dcCells ucMode x a ≠ none) :
    InBlock dcLevels dcTableSize x a ∨
      (512 ≤ a ∧ precalculated ucMode x.2 = true) ∧ InBlock dcLevels dcTableSize x (a - 512) := by
  cases hslot : dcLevels.slot x.2 with
  | none => simp [dcCells, hslot] at h
  | some ok =>
    obtain ⟨o, k⟩ := ok
    rw [dcCells_eq hslot] at h
    -- an entry, or else a coefficient
    by_cases hentry : x.1 * dcTableSize + o ≤ a ∧ a < x.1 * dcTableSize + o + 2 ^ k
    · exact .inl ⟨o, k, hslot, hentry⟩
    · right
      rw [Mem.cell_eq_none_iff.mpr (by rwa [List.length_replicate]), Option.none_or] at h
      split at h
      · rename_i hpre
        obtain ⟨hlow, hhigh⟩ := Classical.not_not.mp (mt Mem.cell_eq_none_iff.mpr h)
        rw [length_dcCoeffs (sym_le_of_precalculated hpre hslot)] at hhigh
        exact ⟨⟨by omega, hpre⟩, o, k, hslot, by omega, by omega⟩
      · exact absurd rfl h

/-- The two blocks of a DC code lie in different parts of its table. -/
theorem InBlock.not_shifted (hx : dcLevels.Fits x.2) (hy : dcLevels.Fits y.2)
    (h : InBlock dcLevels dcTableSize x a) : ¬ InBlock dcLevels dcTableSize y (a + 512) := by
  intro h'
  have hb := h.bounds hx
  have hb' := h'.bounds hy
  have hlong : dcLevels.long = 128 := rfl
  simp only [hlong, dcTableSize] at hb hb'
  omega

/-- No two DC codes share a cell, -/
theorem dcCells_disjoint (hx : dcLevels.Fits x.2) (hy : dcLevels.Fits y.2)
    (hxy : Precedes 12 x y) (h : dcCells ucMode x a ≠ none) : dcCells ucMode y a = none := by
  -- entries and coefficients of both
  have hsize : 2 * dcLevels.long ≤ dcTableSize := by decide
  by_contra h'
  rcases inBlock_of_dcCells h with hin | ⟨⟨hle, -⟩, hin⟩ <;>
    rcases inBlock_of_dcCells h' with hin' | ⟨⟨hle', -⟩, hin'⟩
  · exact InBlock.disjoint hsize hx hy hxy hin hin'
  · rw [show a = a - 512 + 512 by omega] at hin
    exact hin'.not_shifted hy hx hin
  · rw [show a = a - 512 + 512 by omega] at hin'
    exact hin.not_shifted hx hy hin'
  · exact InBlock.disjoint hsize hx hy hxy hin hin'

/-- and no two AC codes. -/
theorem acCells_disjoint {bThumbnail : Bool} (hx : acLevels.Fits x.2) (hy : acLevels.Fits y.2)
    (hxy : Precedes 16 x y) (h : acCells bThumbnail x a ≠ none) :
    acCells bThumbnail y a = none := by
  by_contra h'
  exact InBlock.disjoint (by decide) hx hy hxy (inBlock_of_acCells h) (inBlock_of_acCells h')

/-- All entries of a DC code are written. -/
theorem dcCells_of_inBlock (h : InBlock dcLevels dcTableSize x a) :
    dcCells ucMode x a = some (dcEntry ucMode x.2) := by
  obtain ⟨o, k, hslot, hlow, hhigh⟩ := h
  rw [dcCells_eq hslot, Mem.cell_replicate _ ⟨hlow, hhigh⟩, Option.some_or]

/-- A code that leaves room for its magnitude is a short one. -/
theorem short_of_precalculated {c : Codeword UInt8} (hc : dcLevels.Fits c)
    (hpre : precalculated ucMode c = true) :
    ¬ (dcLevels.T ≤ c.len ∧ c.code / 2 ^ (c.len - dcLevels.T) = 2 ^ dcLevels.T - 1) := by
  rintro ⟨hlen, hones⟩
  simp only [precalculated, decide_eq_true_eq] at hpre
  have hsym : c.sym.toNat ≠ 0 := fun h0 => hpre.1 (UInt8.toNat_inj.mp h0)
  -- five ones and one extra bit would be all of the six
  have hfive : c.len = 5 := by
    simp only [dcLevels] at hlen
    omega
  have hcode := hc.code_lt
  rw [hfive] at hones hcode
  simp only [dcLevels, Nat.sub_self, Nat.pow_zero, Nat.div_one] at hones
  omega

/-- Behind a code, the difference that the next bits of the window stand for. -/
theorem dcCells_coeff {w : Nat} (hx : dcLevels.Fits x.2) (hw : w < 2 ^ 12)
    (hpre : precalculated ucMode x.2 = true) (hbegins : x.2.Begins 12 w) :
    dcCells ucMode x (x.1 * dcTableSize + dcLevels.index w + 512) =
      some (dcCoeff x.2.sym.toNat
        (w / 2 ^ (12 - x.2.len - x.2.sym.toNat) % 2 ^ x.2.sym.toNat)) := by
  obtain ⟨i, c⟩ := x
  simp only at hx hpre hbegins ⊢
  have hshort := short_of_precalculated hx hpre
  have hroom : c.sym.toNat + c.len ≤ 6 := by
    simp only [precalculated, decide_eq_true_eq] at hpre
    exact hpre.2.1
  have hsome : (dcLevels.slot c).isSome :=
    TwoLevel.slot_isSome_iff.mpr (.inl (by simp only [dcLevels]; omega))
  obtain ⟨⟨o, k⟩, hslot⟩ := Option.isSome_iff_exists.mp hsome
  -- the coefficients lie behind the entries of all codes
  have hnot : ¬ InBlock dcLevels dcTableSize (i, c) (i * dcTableSize + dcLevels.index w + 512) :=
    ((inBlock_index_iff (x := (i, c)) hx hsome hw).mpr hbegins).not_shifted hx hx
  obtain ⟨hlow, hhigh⟩ := (TwoLevel.index_mem_slot_iff hx hw hslot).mpr hbegins
  have hmag := sym_le_of_precalculated hpre hslot
  obtain ⟨-, rfl, rfl, -⟩ := TwoLevel.slot_short hshort hslot
  -- the place of the window among the entries of the code
  have hplace : dcLevels.index w - c.code * 2 ^ (6 - c.len) = w / 2 ^ 6 % 2 ^ (6 - c.len) := by
    have hend := TwoLevel.short_le_ones hx hshort
    have hcode : c.code = w / 2 ^ 6 / 2 ^ (6 - c.len) := by
      rw [Nat.div_div_eq_div_mul, ← Nat.pow_add, show 6 + (6 - c.len) = 12 - c.len by omega]
      exact hbegins.symm
    have hw' := (Codeword.begins_iff.mp hbegins).2
    have hindex : dcLevels.index w = w / 2 ^ 6 :=
      if_neg (Nat.not_le.mpr (Nat.lt_of_lt_of_le hw' hend))
    rw [hindex, hcode, Nat.mod_eq_sub, Nat.mul_comm]
  have hbits : w / 2 ^ 6 % 2 ^ (6 - c.len) / 2 ^ (6 - c.len - c.sym.toNat) =
      w / 2 ^ (12 - c.len - c.sym.toNat) % 2 ^ c.sym.toNat := by
    rw [show 2 ^ (6 - c.len) = 2 ^ (6 - c.len - c.sym.toNat) * 2 ^ c.sym.toNat by
        rw [← Nat.pow_add]
        congr 1
        omega,
      Nat.mod_mul_right_div_self, Nat.div_div_eq_div_mul, ← Nat.pow_add]
    congr 3
    omega
  rw [dcCells_eq hslot, Mem.cell_eq_none_iff.mpr (fun hin => hnot ⟨_, _, hslot, by
      rwa [List.length_replicate] at hin⟩), Option.none_or, if_pos hpre, Mem.cell,
    if_pos (Nat.add_le_add_right (Nat.add_le_add_left hlow _) _), dcCoeffs,
    show i * dcTableSize + dcLevels.index w + 512 -
      (i * dcTableSize + c.code * 2 ^ (dcLevels.S - c.len) + 512) =
      dcLevels.index w - c.code * 2 ^ (6 - c.len) by
        simp only [dcLevels]
        omega,
    hplace, Mem.getElem?_flatMap_replicate]
  · exact congrArg (fun j => some (dcCoeff c.sym.toNat j)) hbits
  · rw [← Nat.pow_add, Nat.add_sub_cancel' hmag]
    exact Nat.mod_lt _ (Nat.two_pow_pos _)

end

end Ivy.Spec
