import Mathlib.Data.List.TakeWhile
import Ivy.ForStd.Memory

/-!
# Strings of C

A string is the bytes at its address; its text are those before the first null byte.
-/

namespace Ivy

/-- The bytes from the address of a string on, a null byte among them. -/
structure CString where
  mem : List UInt8
  terminated : 0 ∈ mem
  deriving DecidableEq, Repr

namespace CString

/-- The bytes before the first null byte. -/
def cells (mem : List UInt8) : List UInt8 := mem.takeWhile (· ≠ 0)

def text (s : CString) : List UInt8 := cells s.mem

def strlen (s : CString) : Nat := s.text.length

/-- Compare at most `n` bytes. A difference is that of the bytes as unsigned numbers; the last
    case is for strings that are not terminated. -/
def compareCells : Nat → List UInt8 → List UInt8 → Int
  | 0, _, _ => 0
  | n + 1, a :: s, b :: t =>
    if a ≠ b then (a.toNat : Int) - b.toNat
    else if a = 0 then 0
    else compareCells n s t
  | _, _, _ => 0

def strncmp (s t : CString) (n : Nat) : Int := compareCells n s.mem t.mem

/-- A terminator ends the text. -/
@[simp] theorem cells_cons_zero (mem : List UInt8) : cells (0 :: mem) = [] := rfl

/-- Any other byte is part of it. -/
theorem cells_cons {a : UInt8} (ha : a ≠ 0) (mem : List UInt8) :
    cells (a :: mem) = a :: cells mem := by
  simp [cells, ha]

/-- The text is followed by a null byte. -/
theorem cells_append_cons_zero {s : List UInt8} (hs : ∀ a ∈ s, a ≠ 0) (mem : List UInt8) :
    cells (s ++ 0 :: mem) = s := by
  induction s with
  | nil => rfl
  | cons a s ih =>
    rw [List.cons_append, cells_cons (hs a List.mem_cons_self)]
    rw [ih fun b hb => hs b (List.mem_cons_of_mem a hb)]

/-- There is no terminator in the text. -/
theorem ne_zero_of_mem_cells {mem : List UInt8} {a : UInt8} (h : a ∈ cells mem) : a ≠ 0 := by
  simpa using List.mem_takeWhile_imp h

/-- The text is where the memory begins. -/
theorem take_length_cells (mem : List UInt8) : mem.take (cells mem).length = cells mem :=
  List.prefix_iff_eq_take.mp (List.takeWhile_prefix _) |>.symm

/-- The text is not longer than the memory, -/
theorem length_cells_le (mem : List UInt8) : (cells mem).length ≤ mem.length :=
  (List.takeWhile_prefix _).length_le

/-- and shorter where there is a terminator. -/
theorem length_cells_lt {mem : List UInt8} (h : 0 ∈ mem) : (cells mem).length < mem.length := by
  induction mem with
  | nil => exact absurd h List.not_mem_nil
  | cons a mem ih =>
    by_cases ha : a = 0
    · subst ha
      simp
    · have hmem : 0 ∈ mem := (List.mem_cons.mp h).resolve_left (Ne.symm ha)
      rw [cells_cons ha]
      simpa using ih hmem

/-- Compared over the length of the first, two strings are equal exactly if the first is the
    beginning of the second. -/
theorem compareCells_eq_zero_iff (s : List UInt8) {t : List UInt8} (ht : 0 ∈ t) :
    compareCells (cells s).length s t = 0 ↔ cells s <+: cells t := by
  induction s generalizing t with
  | nil => simp [cells, compareCells]
  | cons a s ih =>
    -- at a terminator the text is empty, and a beginning of every other
    by_cases ha : a = 0
    · subst ha
      simp [compareCells]
    cases t with
    | nil => exact absurd ht List.not_mem_nil
    | cons b t =>
      rw [cells_cons ha, List.length_cons]
      by_cases hab : a = b
      · subst hab
        -- the same byte, and not the terminator: both go on
        have htail : 0 ∈ t := (List.mem_cons.mp ht).resolve_left (Ne.symm ha)
        rw [cells_cons ha, List.prefix_cons_inj, ← ih htail]
        simp [compareCells, ha]
      · -- different first bytes: a difference, and no common beginning
        have hdiff : (a.toNat : Int) - b.toNat ≠ 0 := by
          have hnat : a.toNat ≠ b.toNat := fun h => hab (UInt8.toNat_inj.mp h)
          omega
        have hprefix : ¬ (a :: cells s) <+: cells (b :: t) := by
          by_cases hb : b = 0
          · subst hb
            simp
          · rw [cells_cons hb, List.cons_prefix_cons]
            exact fun h => hab h.1
        simp [compareCells, hab, hdiff, hprefix]

/-- `strncmp` compares with the beginning of the other text. -/
theorem strncmp_eq_zero_iff (s t : CString) : strncmp s t s.strlen = 0 ↔ s.text <+: t.text :=
  compareCells_eq_zero_iff s.mem t.terminated

/-- Bytes without a terminator. -/
theorem cells_eq_self {s : List UInt8} (hs : ∀ a ∈ s, a ≠ 0) : cells s = s :=
  List.takeWhile_eq_self_iff.mpr fun a ha => by simpa using hs a ha

/-- There is no terminator in the text. -/
theorem ne_zero_of_mem_text {s : CString} {a : UInt8} (h : a ∈ s.text) : a ≠ 0 :=
  ne_zero_of_mem_cells h

/-! ## Copying into a field -/

/-- The byte at an index, zero behind the end. -/
def padded (l : List UInt8) (i : Nat) : UInt8 := l[i]?.getD 0

/-- At most the first `n` bytes, filled up with zeros. -/
def field (n : Nat) (l : List UInt8) : List UInt8 :=
  l.take n ++ List.replicate (n - l.length) 0

/-- `strncpy(dst, src, n)` in the memory `m`: the text within the first `n` bytes of the source, and
    zeros up to `n`. -/
def strncpy (m : Nat → UInt8) (dst : Nat) (src : List UInt8) (n : Nat) : Nat → UInt8 :=
  Mem.store m dst (field n (cells (src.take n)))

/-- A field has its length whatever it holds. -/
@[simp] theorem length_field (n : Nat) (l : List UInt8) : (field n l).length = n := by
  simp only [field, List.length_append, List.length_take, List.length_replicate]
  omega

/-- The cells of a field. -/
theorem getElem?_field {n i : Nat} (l : List UInt8) (hi : i < n) :
    (field n l)[i]? = some (padded l i) := by
  unfold field padded
  by_cases h : i < l.length
  · -- a byte of the text
    rw [List.getElem?_append_left (by simp; omega), List.getElem?_take_of_lt hi,
      List.getElem?_eq_getElem h]
    rfl
  · -- a zero behind it
    rw [List.getElem?_append_right (by simp; omega), List.getElem?_replicate,
      if_pos (by simp; omega), List.getElem?_eq_none (show l.length ≤ i by omega)]
    rfl

/-- Behind the text there are zeros. -/
theorem padded_of_le {l : List UInt8} {i : Nat} (h : l.length ≤ i) : padded l i = 0 := by
  simp [padded, h]

/-- In a text only the bytes behind the end are zero. -/
theorem padded_eq_zero_iff {l : List UInt8} (hl : ∀ a ∈ l, a ≠ 0) (i : Nat) :
    padded l i = 0 ↔ l.length ≤ i := by
  refine ⟨fun h => ?_, padded_of_le⟩
  by_contra hlt
  have hi : i < l.length := by omega
  rw [padded, List.getElem?_eq_getElem hi] at h
  exact hl _ (List.getElem_mem hi) h

/-- A block of memory is a field when its cells are. -/
theorem load_eq_field_iff {m : Nat → UInt8} {p n : Nat} {l : List UInt8} :
    Mem.load m p n = field n l ↔ ∀ i < n, m (p + i) = padded l i := by
  constructor
  · intro h i hi
    have hcell := Mem.getElem?_load m (p := p) hi
    rw [h, getElem?_field l hi] at hcell
    exact (Option.some.inj hcell).symm
  · intro h
    apply List.ext_getElem?
    intro i
    -- within the field, and behind it both are undefined
    by_cases hi : i < n
    · rw [Mem.getElem?_load m hi, getElem?_field l hi, h i hi]
    · rw [List.getElem?_eq_none (by simp; omega), List.getElem?_eq_none (by simp; omega)]

/-- The memory after a `strncpy`, cell by cell. -/
theorem strncpy_apply (m : Nat → UInt8) (dst : Nat) (src : List UInt8) (n j : Nat) :
    strncpy m dst src n j =
      if dst ≤ j ∧ j < dst + n then padded (cells (src.take n)) (j - dst) else m j := by
  unfold strncpy
  split
  · rename_i hin
    have hcell := Mem.store_of_getElem? m (o := dst)
      (getElem?_field (cells (src.take n)) (show j - dst < n by omega))
    rwa [show dst + (j - dst) = j by omega] at hcell
  · rename_i hout
    -- the cells in front and behind are left
    by_cases hlt : j < dst
    · exact Mem.store_of_lt m _ hlt
    · exact Mem.store_of_ge m _ (by rw [length_field]; omega)

end CString

end Ivy
