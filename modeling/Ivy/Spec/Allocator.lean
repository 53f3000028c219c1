import Ivy.ForStd.Transition
import Ivy.Native.TklMemory
import Mathlib.Algebra.Group.Nat.Defs

/-!
# The contract of the allocator

`calloc` promises a zeroed block for `nitems` times `size` bytes; the product is taken in 32 bits,
and where it wraps to 0 the request is refused, where it wraps to anything else the block is short.
`realloc` promises the bytes of the old block; it copies as many bytes as the new block has, so a
block that grows is read past its end. Both keep their promise where the arithmetic fits and nothing
grows, and a `realloc` that finds no memory always leaves the old block as it was.

## Key results

- `calloc_right_iff`, `realloc_right_iff`: one call
- `allocator_contract_iff`: every sequence of calls, from any heap
-/

namespace Ivy.Spec

open Ivy Ivy.Native Ivy.Lts

/-! ## The heap -/

section

variable {h : Heap} {p : Nat}

/-- The number of a new block is not that of a live one. -/
theorem ne_next_of_live (hp : (h.blocks p).isSome) : p ≠ h.next := by
  rintro rfl
  simp [h.fresh _ (Nat.le_refl _)] at hp

variable (h p)

/-- A new block, -/
theorem blocks_push_self (b : List UInt8) : (h.push b).blocks h.next = some b :=
  Function.update_self ..

/-- and the old ones. -/
theorem blocks_push_of_live {q : Nat} (hq : (h.blocks q).isSome) (b : List UInt8) :
    (h.push b).blocks q = h.blocks q :=
  Function.update_of_ne (ne_next_of_live hq) ..

/-- A block that is written, -/
theorem blocks_modify_self (f : List UInt8 → List UInt8) :
    (h.modify p f).blocks p = (h.blocks p).map f :=
  Function.update_self ..

/-- and the others. -/
theorem blocks_modify_of_ne {q : Nat} (hq : q ≠ p) (f : List UInt8 → List UInt8) :
    (h.modify p f).blocks q = h.blocks q :=
  Function.update_of_ne hq ..

/-- The blocks that are not freed. -/
theorem blocks_remove_of_ne {q : Nat} (hq : q ≠ p) : (h.remove p).blocks q = h.blocks q :=
  Function.update_of_ne hq ..

end

/-! ## One call -/

section

variable {h : Heap} (grant : Option (Nat → UInt8)) (garbage behind : Nat → UInt8)

/-- The result of `calloc`, if there is one, is a zeroed block of at least `nitems` times `size`
    bytes, over the integers. -/
def CallocRight (nitems size : UInt32) (r : Heap × Option Nat) : Prop :=
  ∀ p, r.2 = some p → ∃ b, r.1.blocks p = some b ∧
    nitems.toNat * size.toNat ≤ b.length ∧ ∀ x ∈ b, x = 0

/-- A `realloc` with a result keeps the bytes that both blocks have room for and reads none behind
    the old block; one without a result leaves the old block as it was, unless that was to be
    freed. -/
def ReallocRight (h : Heap) (ptr : Option Nat) (size : UInt32) (r : Realloc) : Prop :=
  ∀ p, ptr = some p →
    (∀ q, r.result = some q → ∃ b, r.heap.blocks q = some b ∧
      b.take (min (h.bytes p).length size.toNat) =
        (h.bytes p).take (min (h.bytes p).length size.toNat) ∧
      r.copied ≤ (h.bytes p).length) ∧
    (r.result = none → 0 < size.toNat → r.heap.blocks p = h.blocks p)

/-- A request for nothing finds no memory, and the heap is the one before. -/
theorem malloc_zero (h : Heap) : tklSystemMalloc h 0 grant = (h, none) := by
  unfold tklSystemMalloc pvPortMalloc
  exact if_pos rfl

/-- A request for something gets the next block, where there is memory. -/
theorem malloc_some (h : Heap) {size : UInt32} (hsize : size ≠ 0) :
    tklSystemMalloc h size (some garbage) =
      (h.push (Mem.load garbage 0 size.toNat), some h.next) :=
  if_neg hsize

/-- Without memory there is no block. -/
theorem malloc_none (h : Heap) (size : UInt32) : tklSystemMalloc h size none = (h, none) :=
  ite_self _

/-- The block that `calloc` makes is the next one, and it is zeroed. -/
theorem calloc_some {nitems size : UInt32} (hsize : nitems * size ≠ 0) :
    tklSystemCalloc h nitems size (some garbage) =
      ((h.push (Mem.load garbage 0 (nitems * size).toNat)).memset h.next 0
        (nitems * size).toNat, some h.next) := by
  rw [tklSystemCalloc, malloc_some garbage h hsize]

/-- A `calloc` whose product is 0 in 32 bits, or that finds no memory, does nothing. -/
theorem calloc_refused {nitems size : UInt32} (hnone : grant = none ∨ nitems * size = 0) :
    tklSystemCalloc h nitems size grant = (h, none) := by
  rw [tklSystemCalloc]
  obtain rfl | hsize := hnone
  · rw [malloc_none]
  · rw [hsize, malloc_zero]

/-- The block that `calloc` makes has the wrapped size. -/
theorem blocks_calloc {nitems size : UInt32} (hsize : nitems * size ≠ 0) :
    (tklSystemCalloc h nitems size (some garbage)).1.blocks h.next =
      some (List.replicate (nitems * size).toNat 0) := by
  rw [calloc_some garbage hsize, Heap.memset, blocks_modify_self, blocks_push_self,
    Option.map_some, List.drop_eq_nil_of_le (by simp), List.append_nil]

/-- One `calloc` keeps its promise exactly if it is refused or its product fits 32 bits. -/
theorem calloc_right_iff (nitems size : UInt32) :
    CallocRight nitems size (tklSystemCalloc h nitems size grant) ↔
      grant = none ∨ nitems * size = 0 ∨ nitems.toNat * size.toNat < 2 ^ 32 := by
  -- no block is handed out
  by_cases hnone : grant = none ∨ nitems * size = 0
  · rw [calloc_refused grant hnone, ← or_assoc]
    exact ⟨fun _ => Or.inl hnone, fun _ _ hp => absurd hp nofun⟩
  rw [← or_assoc, or_iff_right hnone]
  obtain ⟨hgrant, hsize⟩ := not_or.mp hnone
  obtain ⟨garbage, rfl⟩ := Option.ne_none_iff_exists'.mp hgrant
  have hlength : (nitems * size).toNat = nitems.toNat * size.toNat % 2 ^ 32 :=
    UInt32.toNat_mul ..
  constructor
  · intro hright
    obtain ⟨b, hb, hroom, -⟩ := hright h.next (by rw [calloc_some garbage hsize])
    rw [blocks_calloc garbage hsize, Option.some.injEq] at hb
    rw [← hb, List.length_replicate, hlength] at hroom
    -- a wrapped product is smaller than the product
    have hmod := Nat.mod_lt (nitems.toNat * size.toNat) (show 0 < 2 ^ 32 by decide)
    omega
  · intro hfits p hp
    rw [calloc_some garbage hsize] at hp
    cases hp
    refine ⟨_, blocks_calloc garbage hsize, ?_, ?_⟩
    · apply Nat.le_of_eq
      rw [List.length_replicate, hlength, Nat.mod_eq_of_lt hfits]
    · exact fun x hx => List.eq_of_mem_replicate hx

/-- The new block of a `realloc` holds what was read from the old one. -/
theorem blocks_realloc {p : Nat} (hp : (h.blocks p).isSome) {size : UInt32} (hsize : size ≠ 0) :
    (tklSystemRealloc h (some p) size (some garbage) behind).heap.blocks h.next =
      some (Mem.load (Mem.store behind 0 (h.bytes p)) 0 size.toNat) := by
  -- the old block is still the same when it is copied
  have hbytes : (h.push (Mem.load garbage 0 size.toNat)).bytes p = h.bytes p := by
    rw [Heap.bytes, blocks_push_of_live h hp, Heap.bytes]
  rw [tklSystemRealloc, if_neg hsize, malloc_some garbage h hsize]
  show (((h.push _).memcpy h.next p _ behind).remove p).blocks h.next = _
  -- the old block is freed after the copy, and it is not the new one
  rw [blocks_remove_of_ne _ _ (ne_next_of_live hp).symm, Heap.memcpy, blocks_modify_self,
    blocks_push_self, Option.map_some, hbytes, List.drop_eq_nil_of_le (by simp), List.append_nil]

/-- With memory the call returns the new block, after copying as many bytes as that has. -/
theorem realloc_copies (p : Nat) {size : UInt32} (hsize : size ≠ 0) :
    (tklSystemRealloc h (some p) size (some garbage) behind).result = some h.next ∧
      (tklSystemRealloc h (some p) size (some garbage) behind).copied = size.toNat := by
  rw [tklSystemRealloc, if_neg hsize, malloc_some garbage h hsize]
  exact ⟨rfl, rfl⟩

/-- `realloc` is right unless the block gets larger. -/
theorem realloc_right_iff {p : Nat} (hp : (h.blocks p).isSome) (size : UInt32) :
    ReallocRight h (some p) size (tklSystemRealloc h (some p) size grant behind) ↔
      grant = none ∨ size.toNat ≤ (h.bytes p).length := by
  by_cases hsize : size = 0
  · -- the call is a `free`
    subst hsize
    refine ⟨fun _ => Or.inr (Nat.zero_le _), fun _ q hq => ⟨?_, ?_⟩⟩
    · intro r hr
      exact absurd hr nofun
    · intro _ hpos
      exact absurd hpos (by decide)
  cases grant with
  | none =>
    -- no memory: the heap is the one before
    have heq : tklSystemRealloc h (some p) size none behind = ⟨h, none, 0⟩ := by
      rw [tklSystemRealloc, if_neg hsize, malloc_none]
    rw [heq]
    exact ⟨fun _ => Or.inl rfl, fun _ q _ => ⟨fun _ hr => absurd hr nofun, fun _ _ => rfl⟩⟩
  | some garbage =>
    have hblock := blocks_realloc garbage behind hp hsize
    obtain ⟨hresult, hcopied⟩ := realloc_copies garbage behind p hsize
    constructor
    · intro hright
      -- the bytes read are as many as the new block has
      obtain ⟨-, -, -, hread⟩ := (hright p rfl).1 h.next hresult
      exact Or.inr (hcopied ▸ hread)
    · rintro (hnone | hfits)
      · exact absurd hnone nofun
      · intro q hq
        cases hq
        refine ⟨fun r hr => ?_, fun hnone => ?_⟩
        · rw [hresult] at hr
          cases hr
          exact ⟨_, hblock, Mem.take_load_store behind _ _, hcopied ▸ hfits⟩
        · rw [hresult] at hnone
          exact absurd hnone nofun

end

/-! ## Sequences of calls -/

/-- A call, with what `pvPortMalloc` answers to it. -/
inductive AllocOp where
  | malloc (size : UInt32) (grant : Option (Nat → UInt8))
  | calloc (nitems size : UInt32) (grant : Option (Nat → UInt8))
  | realloc (ptr : Option Nat) (size : UInt32) (grant : Option (Nat → UInt8))
      (behind : Nat → UInt8)
  | free (ptr : Option Nat)

namespace AllocOp

def step (h : Heap) : AllocOp → Heap
  | malloc size grant => (tklSystemMalloc h size grant).1
  | calloc nitems size grant => (tklSystemCalloc h nitems size grant).1
  | realloc ptr size grant behind => (tklSystemRealloc h ptr size grant behind).heap
  | free ptr => tklSystemFree h ptr

/-- The pointer that the caller hands in. -/
def ptr : AllocOp → Option Nat
  | realloc ptr _ _ _ => ptr
  | free ptr => ptr
  | _ => none

/-- The pointer is `NULL` or that of a live block. -/
def Legal (h : Heap) (op : AllocOp) : Prop := ∀ p, op.ptr = some p → (h.blocks p).isSome

/-- The call keeps its contract, and every live block but the one handed in stays as it is. -/
def Right (h : Heap) (op : AllocOp) : Prop :=
  (∀ q, (h.blocks q).isSome → op.ptr ≠ some q → (op.step h).blocks q = h.blocks q) ∧
  match op with
  | malloc size grant => ∀ p, (tklSystemMalloc h size grant).2 = some p →
      h.blocks p = none ∧ ∃ b, (op.step h).blocks p = some b ∧ b.length = size.toNat
  | calloc nitems size grant => CallocRight nitems size (tklSystemCalloc h nitems size grant)
  | realloc ptr size grant behind =>
      ReallocRight h ptr size (tklSystemRealloc h ptr size grant behind)
  | free ptr => ∀ p, ptr = some p → (op.step h).blocks p = none

/-- The product of a `calloc` fits 32 bits and a `realloc` does not grow, or there is no memory; a
    product that wraps to 0 finds none. -/
def Fits (h : Heap) : AllocOp → Prop
  | calloc nitems size grant =>
      grant = none ∨ nitems * size = 0 ∨ nitems.toNat * size.toNat < 2 ^ 32
  | realloc (some p) size grant _ => grant = none ∨ size.toNat ≤ (h.bytes p).length
  | _ => True

end AllocOp

/-- `malloc` leaves the live blocks as they are. -/
theorem blocks_malloc {h : Heap} {q : Nat} (hq : (h.blocks q).isSome) (size : UInt32)
    (grant : Option (Nat → UInt8)) : (tklSystemMalloc h size grant).1.blocks q = h.blocks q := by
  by_cases hsize : size = 0
  · rw [hsize, malloc_zero]
  cases grant with
  | none => rw [malloc_none]
  | some garbage =>
    rw [malloc_some garbage h hsize]
    exact blocks_push_of_live h hq _

/-- `free` leaves every block but the one it is given. -/
theorem blocks_free {h : Heap} {q : Nat} {ptr : Option Nat} (hne : ptr ≠ some q) :
    (tklSystemFree h ptr).blocks q = h.blocks q := by
  cases ptr with
  | none => rfl
  | some p => exact blocks_remove_of_ne h p fun heq => hne (heq ▸ rfl)

/-- No call touches a live block that it was not given. -/
theorem blocks_step {h : Heap} {q : Nat} (hq : (h.blocks q).isSome) (op : AllocOp)
    (hne : op.ptr ≠ some q) : (op.step h).blocks q = h.blocks q := by
  have hnew := ne_next_of_live hq
  cases op with
  | malloc size grant => exact blocks_malloc hq size grant
  | calloc nitems size grant =>
    show (tklSystemCalloc h nitems size grant).1.blocks q = _
    -- no block is made, or one that did not exist before
    by_cases hnone : grant = none ∨ nitems * size = 0
    · rw [calloc_refused grant hnone]
    · obtain ⟨hgrant, hsize⟩ := not_or.mp hnone
      obtain ⟨garbage, rfl⟩ := Option.ne_none_iff_exists'.mp hgrant
      rw [calloc_some garbage hsize, Heap.memset, blocks_modify_of_ne _ _ hnew,
        blocks_push_of_live h hq]
  | free ptr => exact blocks_free hne
  | realloc ptr size grant behind =>
    show (tklSystemRealloc h ptr size grant behind).heap.blocks q = _
    unfold tklSystemRealloc
    split
    · exact blocks_free hne
    · rename_i hsize
      cases ptr with
      | none => exact blocks_malloc hq size grant
      | some p =>
        cases grant with
        | none => rw [malloc_none]
        | some garbage =>
          -- the old block is freed after the copy
          have hfreed : some p ≠ some q := hne
          rw [malloc_some garbage h hsize]
          show (tklSystemFree ((h.push _).memcpy h.next p _ behind) (some p)).blocks q = _
          rw [blocks_free hfreed, Heap.memcpy, blocks_modify_of_ne _ _ hnew,
            blocks_push_of_live h hq]

/-- One call, in any heap. -/
theorem right_iff_fits (h : Heap) (op : AllocOp) (hlegal : op.Legal h) :
    op.Right h ↔ op.Fits h := by
  unfold AllocOp.Right
  rw [and_iff_right fun q hq hne => blocks_step hq op hne]
  cases op with
  | malloc size grant =>
    refine iff_of_true ?_ trivial
    intro p hp
    show _ ∧ ∃ b, (tklSystemMalloc h size grant).1.blocks p = some b ∧ _
    -- nothing is allocated for no bytes
    by_cases hsize : size = 0
    · rw [hsize, malloc_zero] at hp
      exact absurd hp nofun
    cases grant with
    | none =>
      rw [malloc_none] at hp
      exact absurd hp nofun
    | some garbage =>
      rw [malloc_some garbage h hsize] at hp ⊢
      cases hp
      exact ⟨h.fresh _ (Nat.le_refl _), _, blocks_push_self h _, Mem.length_load ..⟩
  | calloc nitems size grant => exact calloc_right_iff grant nitems size
  | realloc ptr size grant behind =>
    cases ptr with
    -- `realloc(NULL, s)` is a `malloc`
    | none => exact iff_of_true (fun p hp => absurd hp nofun) trivial
    | some p => exact realloc_right_iff grant behind (hlegal p rfl) size
  | free ptr =>
    refine iff_of_true ?_ trivial
    rintro p rfl
    exact Function.update_self ..

/-- Along every sequence of legal calls the contract is kept exactly if every `calloc` that finds
    memory has a product below 2 ^ 32, or one that is 0 in 32 bits, and every `realloc` that finds
    memory does not grow its block. -/
theorem allocator_contract_iff (h : Heap) (ops : List AllocOp)
    (hlegal : Always AllocOp.step AllocOp.Legal h ops) :
    Always AllocOp.step AllocOp.Right h ops ↔ Always AllocOp.step AllocOp.Fits h ops :=
  Always.congr right_iff_fits hlegal

/-- Four bytes are allocated, cut to two and freed. -/
theorem allocator_contract_iff_shrink :
    Always AllocOp.step AllocOp.Right .empty
      [.malloc 4 (some fun _ => 7), .realloc (some 0) 2 (some fun _ => 9) fun _ => 1,
        .free (some 1)] := by
  have hlegal : Always AllocOp.step AllocOp.Legal .empty
      [.malloc 4 (some fun _ => 7), .realloc (some 0) 2 (some fun _ => 9) fun _ => 1,
        .free (some 1)] := by
    refine ⟨fun _ hp => absurd hp nofun, fun p hp => ?_, fun p hp => ?_, trivial⟩
    · cases hp; rfl
    · cases hp; rfl
  apply (allocator_contract_iff .empty _ hlegal).mpr
  exact ⟨trivial, Or.inr (by decide), trivial, trivial⟩

/-- `realloc` of four bytes to eight reads past the old block; `calloc` of 65537 items of 65536
    bytes gets a block of 65536. -/
theorem not_allocator_contract :
    (¬ Always AllocOp.step AllocOp.Right .empty
      [.malloc 4 (some fun _ => 7), .realloc (some 0) 8 (some fun _ => 9) fun _ => 1]) ∧
    ¬ Always AllocOp.step AllocOp.Right .empty [.calloc 65537 65536 (some fun _ => 7)] := by
  constructor
  · rintro ⟨-, hright, -⟩
    obtain hnone | hfits := (realloc_right_iff _ _ rfl _).mp hright.2
    · exact absurd hnone nofun
    · exact absurd hfits (by decide)
  · rintro ⟨hright, -⟩
    obtain hnone | hzero | hfits := (calloc_right_iff _ _ _).mp hright.2
    · exact absurd hnone nofun
    · exact absurd hzero (by decide)
    · exact absurd hfits (by decide)

end Ivy.Spec
