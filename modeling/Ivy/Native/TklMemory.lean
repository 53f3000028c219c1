import Ivy.ForStd.Memory

/-!
# The allocator of the SDK

`tkl_system_malloc` and `tkl_system_free` hand on to FreeRTOS; `calloc` and `realloc` are built from
them. Blocks are numbered in the order of their allocation, `none` is `NULL`, and `size_t` has 32
bits.

Whether `pvPortMalloc` finds memory, and what the memory holds, is decided outside: it is the
argument `grant`. So are the bytes that lie behind a block, the argument `behind`. `pvPortMalloc` is
`malloc` here, and `multi_heap_malloc_impl` answers a request for 0 bytes with `NULL`, however much
memory there is.
-/

namespace Ivy.Native

open Ivy

/-- The live blocks by number. A number that was not given out yet is not live. -/
structure Heap where
  blocks : Nat → Option (List UInt8)
  next : Nat
  fresh : ∀ p, next ≤ p → blocks p = none

namespace Heap

def empty : Heap := ⟨fun _ => none, 0, fun _ _ => rfl⟩

/-- The bytes of a block. -/
def bytes (h : Heap) (p : Nat) : List UInt8 := (h.blocks p).getD []

/-- A new block. -/
def push (h : Heap) (b : List UInt8) : Heap where
  blocks := Function.update h.blocks h.next (some b)
  next := h.next + 1
  fresh p hp := by
    rw [Function.update_of_ne (by omega)]
    exact h.fresh p (by omega)

/-- Change the contents of a live block. -/
def modify (h : Heap) (p : Nat) (f : List UInt8 → List UInt8) : Heap where
  blocks := Function.update h.blocks p ((h.blocks p).map f)
  next := h.next
  fresh q hq := by
    by_cases hqp : q = p
    · subst hqp
      rw [Function.update_self, h.fresh q hq]
      rfl
    · rw [Function.update_of_ne hqp]
      exact h.fresh q hq

def remove (h : Heap) (p : Nat) : Heap where
  blocks := Function.update h.blocks p none
  next := h.next
  fresh q hq := by
    by_cases hqp : q = p
    · rw [hqp, Function.update_self]
    · rw [Function.update_of_ne hqp]
      exact h.fresh q hq

/-- `memset` of the first `n` bytes of a block -/
def memset (h : Heap) (p : Nat) (c : UInt8) (n : Nat) : Heap :=
  h.modify p fun b => List.replicate n c ++ b.drop n

/-- `memcpy` of `n` bytes between two blocks. A source that is shorter is read past its end. -/
def memcpy (h : Heap) (dst src n : Nat) (behind : Nat → UInt8) : Heap :=
  h.modify dst fun b => Mem.load (Mem.store behind 0 (h.bytes src)) 0 n ++ b.drop n

end Heap

def pvPortMalloc (h : Heap) (size : UInt32) (grant : Option (Nat → UInt8)) : Heap × Option Nat :=
  if size = 0 then (h, none)
  else
    match grant with
    | none => (h, none)
    | some garbage => (h.push (Mem.load garbage 0 size.toNat), some h.next)

def vPortFree (h : Heap) : Option Nat → Heap
  | none => h
  | some p => h.remove p

/-- `tkl_system_malloc` -/
def tklSystemMalloc (h : Heap) (size : UInt32) (grant : Option (Nat → UInt8)) : Heap × Option Nat :=
  pvPortMalloc h size grant

/-- `tkl_system_free` -/
def tklSystemFree (h : Heap) (ptr : Option Nat) : Heap := vPortFree h ptr

/-- `tkl_system_calloc` -/
def tklSystemCalloc (h : Heap) (nitems size : UInt32) (grant : Option (Nat → UInt8)) :
    Heap × Option Nat :=
  -- the product has 32 bits
  match tklSystemMalloc h (nitems * size) grant with
  | (h, none) => (h, none)
  | (h, some addr) => (h.memset addr 0 (nitems * size).toNat, some addr)

/-- What a call of `tkl_system_realloc` leaves behind; `copied` is the number of bytes that `memcpy`
    reads from the old block. -/
structure Realloc where
  heap : Heap
  result : Option Nat
  copied : Nat

/-- `tkl_system_realloc` -/
def tklSystemRealloc (h : Heap) (ptr : Option Nat) (size : UInt32) (grant : Option (Nat → UInt8))
    (behind : Nat → UInt8) : Realloc :=
  -- a size of 0 frees the block, as in C
  if size = 0 then ⟨tklSystemFree h ptr, none, 0⟩
  else
    match ptr with
    | none => ⟨(tklSystemMalloc h size grant).1, (tklSystemMalloc h size grant).2, 0⟩
    | some old =>
      match tklSystemMalloc h size grant with
      | (h, none) => ⟨h, none, 0⟩
      | (h, some new) =>
        -- the size of the old block is not known here: `size` bytes are copied
        ⟨tklSystemFree (h.memcpy new old size.toNat behind) ptr, some new, size.toNat⟩

end Ivy.Native
