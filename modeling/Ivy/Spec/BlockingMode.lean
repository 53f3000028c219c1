import Ivy.Native.TklNetwork

/-!
# Reading the blocking mode back

`tkl_net_set_block` changes one bit of the flag word and keeps the others. `tkl_net_get_nonblock`
reads this bit, but then asks `errno` too, which belongs to no socket: a socket that was made
nonblocking is reported as blocking unless the last call that failed, on any socket, was to be
tried again.

## Key results

- `setBlock_spec`: what the setter leaves in the flag word
- `blocking_mode_read_back_iff`: when the reader answers what was set
-/

namespace Ivy.Spec

open Ivy.Native

/-! ## The bit -/

section

variable (w m : UInt32)

/-- A cleared bit is clear. -/
theorem and_not_and : w &&& ~~~ m &&& m = 0 := by
  apply UInt32.toBitVec_inj.mp
  ext i
  simp

/-- A set bit is set. -/
theorem or_and : (w ||| m) &&& m = m := by
  apply UInt32.toBitVec_inj.mp
  ext i
  simp
  tauto

/-- Setting a bit leaves the others. -/
theorem or_and_not : (w ||| m) &&& ~~~ m = w &&& ~~~ m := by
  apply UInt32.toBitVec_inj.mp
  ext i hi
  -- bit by bit: where the mask has a bit both sides are zero, elsewhere both are that of `w`
  simp only [UInt32.toBitVec_and, UInt32.toBitVec_or, UInt32.toBitVec_not, BitVec.getElem_and,
    BitVec.getElem_or, BitVec.getElem_not]
  cases w.toBitVec[i] <;> cases m.toBitVec[i] <;> rfl

end

/-- The flag is a bit. -/
theorem oNonblock_ne_zero (bit : Fin 32) : oNonblock bit ≠ 0 := by
  revert bit
  decide

/-- The bit of a flag word. -/
theorem nonblock_bit (bit : Fin 32) (w : UInt32) (block : Bool) :
    (if block then w &&& ~~~ oNonblock bit else w ||| oNonblock bit) &&& oNonblock bit =
      oNonblock bit ↔ block = false := by
  cases block with
  | true =>
    rw [if_pos rfl, and_not_and]
    exact ⟨fun h => absurd h.symm (oNonblock_ne_zero bit), nofun⟩
  | false => simp [or_and]

/-! ## The calls between -/

/-- What a call on a socket leaves behind. -/
structure SocketCall where
  fd : Int
  flags : UInt32
  errno : Errno

def SocketCall.apply (s : SocketState) (c : SocketCall) : SocketState where
  flags := fun fd => if fd = c.fd then c.flags else s.flags fd
  errno := c.errno

/-- Calls on other sockets leave the flag word alone. -/
theorem foldl_apply_flags {fd : Int} {others : List SocketCall} (hothers : ∀ c ∈ others, c.fd ≠ fd)
    (s : SocketState) : (others.foldl SocketCall.apply s).flags fd = s.flags fd := by
  induction others generalizing s with
  | nil => rfl
  | cons c others ih =>
    have hc : fd ≠ c.fd := (hothers c List.mem_cons_self).symm
    rw [List.foldl_cons, ih fun c' hc' => hothers c' (List.mem_cons_of_mem c hc')]
    exact if_neg hc

/-! ## The round trip -/

/-- The reader answers what was set, and the other flags are as before. -/
def ReadsBack (bit : Fin 32) (s s' : SocketState) (fd : Int) (block : Bool) : Prop :=
  (if block then tklNetGetNonblock bit s' fd = 0 else 0 < tklNetGetNonblock bit s' fd) ∧
    s'.flags fd &&& ~~~ oNonblock bit = s.flags fd &&& ~~~ oNonblock bit

instance (bit : Fin 32) (s s' : SocketState) (fd : Int) (block : Bool) :
    Decidable (ReadsBack bit s s' fd block) :=
  inferInstanceAs (Decidable (_ ∧ _))

section

variable {bit : Fin 32} {s : SocketState} {fd : Int} {block : Bool} {refused : Option Errno}

/-- A call that succeeds has changed the bit and nothing else. -/
theorem setBlock_spec (hfd : 0 ≤ fd) (h : (tklNetSetBlock bit s fd block refused).1 = unwSuccess) :
    (tklNetSetBlock bit s fd block refused).2.flags fd =
      if block then s.flags fd &&& ~~~ oNonblock bit else s.flags fd ||| oNonblock bit := by
  unfold tklNetSetBlock at h ⊢
  rw [if_neg (by omega)] at h ⊢
  cases refused with
  | none => exact if_pos rfl
  -- a refused call does not return success
  | some err => exact absurd (show unwFail = unwSuccess from h) (by decide)

/-- The answer is positive only if `errno` says so too. -/
theorem getNonblock_pos_iff (hfd : 0 ≤ fd) :
    0 < tklNetGetNonblock bit s fd ↔
      s.flags fd &&& oNonblock bit = oNonblock bit ∧ s.errno = .eagain := by
  unfold tklNetGetNonblock fcntlGetfl
  rw [if_neg (by omega)]
  -- the flag and the last error are both needed
  split
  · rename_i hbit
    exact ⟨fun h => absurd h (by decide), fun h => absurd h.1 hbit⟩
  · rename_i hbit
    split
    · rename_i herr
      exact ⟨fun _ => ⟨not_not.mp hbit, herr.elim id id⟩, fun _ => by decide⟩
    · rename_i herr
      exact ⟨fun h => absurd h (by decide), fun h => absurd (Or.inl h.2) herr⟩

/-- Without the flag the socket is reported as blocking. -/
theorem getNonblock_of_bit_clear (hfd : 0 ≤ fd)
    (hbit : s.flags fd &&& oNonblock bit ≠ oNonblock bit) : tklNetGetNonblock bit s fd = 0 := by
  unfold tklNetGetNonblock fcntlGetfl
  rw [if_neg (by omega), if_pos hbit]

end

/-- For every flag word, every `errno` and whatever calls on other sockets come between: what was
    set is read back if and only if the socket was made blocking, or `errno` is `EAGAIN` or
    `EWOULDBLOCK` when the mode is read. -/
theorem blocking_mode_read_back_iff (bit : Fin 32) (s : SocketState) (fd : Int) (hfd : 0 ≤ fd)
    (block : Bool) (refused : Option Errno)
    (hset : (tklNetSetBlock bit s fd block refused).1 = unwSuccess) (others : List SocketCall)
    (hothers : ∀ c ∈ others, c.fd ≠ fd) :
    ReadsBack bit s (others.foldl SocketCall.apply (tklNetSetBlock bit s fd block refused).2) fd
        block ↔
      block = true ∨
        (others.foldl SocketCall.apply (tklNetSetBlock bit s fd block refused).2).errno = .eagain ∨
        (others.foldl SocketCall.apply (tklNetSetBlock bit s fd block refused).2).errno =
          .ewouldblock := by
  have hflags := (foldl_apply_flags hothers (tklNetSetBlock bit s fd block refused).2).trans
    (setBlock_spec hfd hset)
  -- of the calls between only the state that they leave matters
  generalize others.foldl SocketCall.apply (tklNetSetBlock bit s fd block refused).2 = s'
    at hflags ⊢
  have hbit := nonblock_bit bit (s.flags fd) block
  rw [← hflags] at hbit
  unfold ReadsBack
  cases block with
  | true =>
    rw [if_pos rfl] at hflags ⊢
    -- clearing the bit twice is clearing it once
    have hrest : s'.flags fd &&& ~~~ oNonblock bit = s.flags fd &&& ~~~ oNonblock bit := by
      rw [hflags, UInt32.and_assoc, UInt32.and_self]
    have hread := getNonblock_of_bit_clear hfd fun h => Bool.noConfusion (hbit.mp h)
    exact ⟨fun _ => Or.inl rfl, fun _ => ⟨hread, hrest⟩⟩
  | false =>
    -- the other flags stay
    have hrest : s'.flags fd &&& ~~~ oNonblock bit = s.flags fd &&& ~~~ oNonblock bit := by
      rw [hflags]
      exact or_and_not _ _
    rw [if_neg Bool.false_ne_true, getNonblock_pos_iff hfd]
    constructor
    · rintro ⟨⟨-, herr⟩, -⟩
      exact Or.inr (Or.inl herr)
    · rintro (h | h | h)
      · exact Bool.noConfusion h
      · exact ⟨⟨hbit.mpr rfl, h⟩, hrest⟩
      · exact ⟨⟨hbit.mpr rfl, h⟩, hrest⟩

/-- A socket is made nonblocking, and a call on another one is to be tried again. -/
theorem blocking_mode_read_back_iff_eagain :
    ReadsBack 0 ⟨fun _ => 6, .other 0⟩
      ([⟨4, 6, .eagain⟩].foldl SocketCall.apply
        (tklNetSetBlock 0 ⟨fun _ => 6, .other 0⟩ 3 false none).2) 3 false :=
  (blocking_mode_read_back_iff 0 _ 3 (by decide) false none rfl _ (by decide)).mpr
    (Or.inr (Or.inl rfl))

/-- With `errno` at 0 a socket that was just made nonblocking is reported as blocking. -/
theorem not_blocking_mode_read_back :
    (tklNetSetBlock 0 ⟨fun _ => 6, .other 0⟩ 3 false none).1 = unwSuccess ∧
      ¬ ReadsBack 0 ⟨fun _ => 6, .other 0⟩
        (tklNetSetBlock 0 ⟨fun _ => 6, .other 0⟩ 3 false none).2 3 false := by
  decide

end Ivy.Spec
