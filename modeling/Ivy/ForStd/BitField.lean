import Mathlib.Algebra.Group.Nat.Defs
import Mathlib.Data.Nat.Bitwise

/-!
# Bit fields in a memory of bytes

The bits of a memory are numbered from the most significant bit of its first byte on. A field is
the number that some consecutive bits spell. A field that is read through a machine word agrees
with the field of the memory as long as it lies within the word.
-/

namespace Ivy.Bits

/-- Bit number `p`. -/
def bit (m : Nat → UInt8) (p : Nat) : Bool := (m (p / 8)).toNat.testBit (7 - p % 8)

/-- The number that the `n` bits from bit `p` on spell, the first one being the highest. -/
def field (m : Nat → UInt8) (p : Nat) : Nat → Nat
  | 0 => 0
  | n + 1 => 2 * field m p n + (bit m (p + n)).toNat

/-- The bits from bit `p` on are the list `bits`. -/
def Holds (m : Nat → UInt8) (p : Nat) (bits : List Bool) : Prop :=
  ∀ i b, bits[i]? = some b → bit m (p + i) = b

/-- The `n` low bits of `v`, the highest one first. -/
def ofNat (v : Nat) : Nat → List Bool
  | 0 => []
  | n + 1 => v.testBit n :: ofNat v n

/-! ## Fields -/

/-- No bits. -/
@[simp] theorem field_zero (m : Nat → UInt8) (p : Nat) : field m p 0 = 0 := rfl

/-- The size of a field. -/
theorem field_lt (m : Nat → UInt8) (p n : Nat) : field m p n < 2 ^ n := by
  induction n with
  | zero => simp
  | succ n ih =>
    have hbit := Bool.toNat_le (bit m (p + n))
    rw [field, Nat.pow_succ]
    omega

/-- A field splits into its first and its last bits. -/
theorem field_add (m : Nat → UInt8) (p a b : Nat) :
    field m p (a + b) = field m p a * 2 ^ b + field m (p + a) b := by
  induction b with
  | zero => simp
  | succ b ih =>
    -- by induction on the last bits, since a field grows at its end
    rw [← Nat.add_assoc, field, ih, field, Nat.pow_succ, ← Nat.add_assoc p a b, Nat.mul_add,
      Nat.mul_left_comm, Nat.mul_comm 2 (2 ^ b), Nat.add_assoc]

/-- The first bits of a field are what is left when the last ones are shifted out. -/
theorem field_div (m : Nat → UInt8) (p a b : Nat) :
    field m p (a + b) / 2 ^ b = field m p a := by
  rw [field_add, Nat.mul_comm, Nat.mul_add_div (Nat.two_pow_pos b),
    Nat.div_eq_of_lt (field_lt m (p + a) b), Nat.add_zero]

/-- The last bits of a field. -/
theorem field_mod (m : Nat → UInt8) (p a b : Nat) :
    field m p (a + b) % 2 ^ b = field m (p + a) b := by
  rw [field_add, Nat.mul_comm, Nat.mul_add_mod, Nat.mod_eq_of_lt (field_lt m (p + a) b)]

/-- The bits of bytes that lie at another address. -/
theorem bit_congr {m₁ m₂ : Nat → UInt8} {k₁ k₂ o : Nat} (h : m₁ (k₁ + o / 8) = m₂ (k₂ + o / 8)) :
    bit m₁ (8 * k₁ + o) = bit m₂ (8 * k₂ + o) := by
  have hdiv : ∀ k, (8 * k + o) / 8 = k + o / 8 := by omega
  have hmod : ∀ k, (8 * k + o) % 8 = o % 8 := by omega
  rw [bit, bit, hdiv, hdiv, hmod, hmod, h]

/-! ## Bytes and words -/

/-- The bits of a byte spell the byte: after `n` of them its `n` highest bits are read. -/
theorem field_byte_take (m : Nat → UInt8) (k n : Nat) (hn : n ≤ 8) :
    field m (8 * k) n = (m k).toNat / 2 ^ (8 - n) := by
  induction n with
  | zero =>
    have hbyte := (m k).toNat_lt
    rw [field_zero, Nat.div_eq_of_lt hbyte]
  | succ n ih =>
    -- the next bit of the same byte
    have hdiv : (8 * k + n) / 8 = k := by omega
    have hmod : 7 - (8 * k + n) % 8 = 7 - n := by omega
    rw [field, ih (by omega), bit, hdiv, hmod, Nat.testBit_eq_decide_div_mod_eq,
      show 8 - n = 7 - n + 1 by omega, show 8 - (n + 1) = 7 - n by omega, Nat.pow_succ,
      ← Nat.div_div_eq_div_mul]
    -- the bit is the remainder of the quotient, with or without one
    by_cases hodd : (m k).toNat / 2 ^ (7 - n) % 2 = 1
    · simp only [hodd, decide_true, Bool.toNat_true]
      omega
    · simp only [hodd, decide_false, Bool.toNat_false]
      omega

/-- A byte, -/
theorem field_byte (m : Nat → UInt8) (k : Nat) : field m (8 * k) 8 = (m k).toNat := by
  simpa using field_byte_take m k 8 (Nat.le_refl 8)

/-- Four bytes as a word, the first one being the highest. -/
def word (m : Nat → UInt8) (k : Nat) : Nat :=
  (m k).toNat * 2 ^ 24 + (m (k + 1)).toNat * 2 ^ 16 + (m (k + 2)).toNat * 2 ^ 8 +
    (m (k + 3)).toNat

/-- and a word. -/
theorem field_word (m : Nat → UInt8) (k : Nat) : field m (8 * k) 32 = word m k := by
  rw [show 32 = 8 + 8 + 8 + 8 from rfl, field_add, field_add, field_add, field_byte,
    show 8 * k + 8 = 8 * (k + 1) by omega, field_byte,
    show 8 * k + (8 + 8) = 8 * (k + 2) by omega, field_byte,
    show 8 * k + (8 + 8 + 8) = 8 * (k + 3) by omega, field_byte, word]
  omega

/-- A field is read out of a word by a shift and a mask. -/
theorem field_of_word (m : Nat → UInt8) {k o n : Nat} (h : o + n ≤ 32) :
    word m k / 2 ^ (32 - n - o) % 2 ^ n = field m (8 * k + o) n := by
  -- the word as a field: the bits before, those that are asked for, and those behind
  have hsplit : word m k = field m (8 * k) (o + n + (32 - n - o)) := by
    rw [← field_word]
    congr 1
    omega
  rw [hsplit, field_div, field_mod]

/-! ## Bit lists -/

/-- As many bits as asked for. -/
@[simp] theorem length_ofNat (v n : Nat) : (ofNat v n).length = n := by
  induction n with
  | zero => rfl
  | succ n ih => simp [ofNat, ih]

/-- No bits are held anywhere. -/
theorem holds_nil (m : Nat → UInt8) (p : Nat) : Holds m p [] := by
  intro i b hi
  simp at hi

/-- The first bit, and the others. -/
theorem holds_cons {m : Nat → UInt8} {p : Nat} {b : Bool} {bits : List Bool} :
    Holds m p (b :: bits) ↔ bit m p = b ∧ Holds m (p + 1) bits := by
  constructor
  · intro h
    refine ⟨h 0 b rfl, fun i c hi => ?_⟩
    rw [Nat.add_right_comm]
    exact h (i + 1) c hi
  · intro ⟨hb, hrest⟩ i c hi
    cases i with
    | zero => simpa [hb] using hi
    | succ i =>
      rw [← Nat.add_assoc, Nat.add_right_comm]
      exact hrest i c hi

/-- Two strings of bits next to each other. -/
theorem holds_append {m : Nat → UInt8} {p : Nat} {bits₁ bits₂ : List Bool} :
    Holds m p (bits₁ ++ bits₂) ↔ Holds m p bits₁ ∧ Holds m (p + bits₁.length) bits₂ := by
  induction bits₁ generalizing p with
  | nil => simp [holds_nil]
  | cons b bits₁ ih =>
    rw [List.cons_append, holds_cons, ih, holds_cons, List.length_cons, and_assoc,
      Nat.add_assoc, Nat.add_comm 1]

/-- A number that is written with `n` bits is read back as a field of `n` bits. -/
theorem field_of_holds {m : Nat → UInt8} {p v n : Nat} (h : Holds m p (ofNat v n)) :
    field m p n = v % 2 ^ n := by
  induction n generalizing p with
  | zero => simp [Nat.mod_one]
  | succ n ih =>
    rw [ofNat, holds_cons] at h
    -- a list of bits starts with the highest one, so that the first bit is split off
    have hfirst : field m p 1 = (v.testBit n).toNat := by simp [field, h.1]
    rw [Nat.add_comm n 1, field_add, ih h.2, hfirst, Nat.add_comm 1 n, Nat.toNat_testBit,
      Nat.mod_pow_succ, Nat.mul_comm, Nat.add_comm]

/-! ## Bit lists as bytes -/

/-- Bits packed into bytes. The last byte is filled up with ones. -/
def toBytes (bits : List Bool) : List UInt8 :=
  (List.range ((bits.length + 7) / 8)).map fun k =>
    UInt8.ofNat (Nat.ofBits fun i : Fin 8 => bits.getD (8 * k + (7 - i)) true)

/-- The last byte may be filled up. -/
@[simp] theorem length_toBytes (bits : List Bool) :
    (toBytes bits).length = (bits.length + 7) / 8 := by
  simp [toBytes]

/-- Bytes that were packed hold the bits. -/
theorem holds_toBytes {m : Nat → UInt8} {k : Nat} {bits : List Bool}
    (h : ∀ i x, (toBytes bits)[i]? = some x → m (k + i) = x) : Holds m (8 * k) bits := by
  intro i b hi
  have hlt : i < bits.length := (List.getElem?_eq_some_iff.mp hi).1
  have hbyte := h (i / 8) (UInt8.ofNat (Nat.ofBits fun j : Fin 8 =>
    bits.getD (8 * (i / 8) + (7 - j)) true)) (by
      rw [toBytes, List.getElem?_map, List.getElem?_range (by omega)]
      rfl)
  -- eight bits are a byte
  have hbits : ∀ f : Fin 8 → Bool, (UInt8.ofNat (Nat.ofBits f)).toNat = Nat.ofBits f :=
    fun f => UInt8.toNat_ofNat_of_lt' (Nat.ofBits_lt_two_pow f)
  rw [bit, show (8 * k + i) / 8 = k + i / 8 by omega, hbyte, hbits,
    Nat.testBit_ofBits_lt _ _ (by omega)]
  simp only
  -- bit `i` is counted from the highest bit of its byte, and back
  rw [show 8 * (i / 8) + (7 - (7 - (8 * k + i) % 8)) = i by omega, List.getD, hi]
  rfl

end Ivy.Bits
