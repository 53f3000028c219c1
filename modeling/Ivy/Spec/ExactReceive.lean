import Ivy.Native.TklNetwork

/-!
# Receiving an exact number of bytes

`tkl_net_recv_nd_size` collects the bytes asked for however the connection cuts them up, and tries
again after an error that passes. So it either has all of them, in their order, or the connection
has failed for good before the last one came.

## Key results

- `recvRetries_iff`: the errors that pass, through the table of translations
- `recvLoop_spec`: the loop from any number of bytes on
- `recvNdSize_exact`: the call as a whole
-/

namespace Ivy.Spec

open Ivy.Native

/-! ## What the connection does -/

/-- The connection is closed, or has failed with an error that does not pass. -/
def Fatal : RecvOutcome → Prop
  | .data _ => False
  | .error err => err ≠ .eintr ∧ err ≠ .eagain ∧ err ≠ .ewouldblock
  | .close => True

instance : DecidablePred Fatal
  | .data _ => isFalse id
  | .error _ => inferInstanceAs (Decidable (_ ∧ _ ∧ _))
  | .close => isTrue trivial

/-- How many bytes a call that asks for `n` gets. -/
def got (n : Nat) : RecvOutcome → Nat
  | .data k => min (k + 1) n
  | _ => 0

/-- How many bytes arrive for a caller that wants `n` of them. -/
def arrived (n : Nat) : List RecvOutcome → Nat
  | [] => 0
  | o :: os => got n o + arrived (n - got n o) os

/-- The connection fails before `n` bytes have arrived. -/
def FailsBefore (n : Nat) (os : List RecvOutcome) : Prop :=
  ∃ before o after, os = before ++ o :: after ∧ Fatal o ∧ arrived n before < n

/-- No call receives more than was asked for. -/
theorem got_le (n : Nat) (o : RecvOutcome) : got n o ≤ n := by
  cases o <;> simp only [got] <;> omega

/-- The first call fails, or a later one. -/
theorem failsBefore_cons (n : Nat) (o : RecvOutcome) (os : List RecvOutcome) :
    FailsBefore n (o :: os) ↔ Fatal o ∧ 0 < n ∨ FailsBefore (n - got n o) os := by
  have hle := got_le n o
  constructor
  · rintro ⟨before, o', after, heq, hfatal, hlt⟩
    cases before with
    | nil =>
      cases heq
      exact Or.inl ⟨hfatal, hlt⟩
    | cons b before =>
      cases heq
      simp only [arrived] at hlt
      exact Or.inr ⟨before, o', after, rfl, hfatal, by omega⟩
  · rintro (⟨hfatal, hpos⟩ | ⟨before, o', after, rfl, hfatal, hlt⟩)
    · exact ⟨[], o, os, rfl, hfatal, hpos⟩
    · refine ⟨o :: before, o', after, rfl, hfatal, ?_⟩
      simp only [arrived]
      omega

/-- No call, no failure. -/
theorem not_failsBefore_nil (n : Nat) : ¬ FailsBefore n [] := by
  rintro ⟨before, o, after, heq, -⟩
  cases before <;> exact nomatch heq

/-- The errors after which the loop tries again: the two entries of the table, and no number
    without an entry is translated to one of them. -/
theorem recvRetries_iff (err : Errno) :
    recvRetries (tklNetGetErrno err) = true ↔ err = .eintr ∨ err = .eagain := by
  cases err with
  | other n =>
    -- a number without an entry is translated below -100, where no name is
    have htrans : tklNetGetErrno (.other n) = -100 - n := by
      simp [tklNetGetErrno, transLoop, unwErrnoTrans, Errno.ewouldblock]
    rw [htrans]
    simp only [recvRetries, unwEwouldblock, unwEintr, unwEagain, Bool.or_eq_true, beq_iff_eq,
      reduceCtorEq, or_self, iff_false]
    omega
  | _ => decide

/-! ## The loop -/

section

variable (stream : Nat → UInt8) (buf : Nat) (s₀ : RecvState)

/-- The first `rd` bytes of the stream are in the buffer, and nothing else has changed. -/
structure Received (rd : Nat) (s : RecvState) : Prop where
  consumed : s.consumed = s₀.consumed + rd
  bytes : Mem.load s.mem buf rd = Mem.load stream s₀.consumed rd
  frame : ∀ j, j < buf ∨ buf + rd ≤ j → s.mem j = s₀.mem j

variable {stream buf s₀}

/-- A call that delivers `len` bytes extends what was received. -/
theorem Received.data {rd : Nat} {s : RecvState} (h : Received stream buf s₀ rd s) (len : Nat) :
    Received stream buf s₀ (rd + len)
      { s with
        mem := Mem.store s.mem (buf + rd) (Mem.load stream s.consumed len)
        consumed := s.consumed + len } where
  consumed := by
    have hcons := h.consumed
    show s.consumed + len = s₀.consumed + (rd + len)
    omega
  bytes := by
    -- the bytes received before lie below those that are stored now
    have hold : Mem.load (Mem.store s.mem (buf + rd) (Mem.load stream s.consumed len)) buf rd =
        Mem.load stream s₀.consumed rd := by
      rw [← h.bytes]
      apply Mem.load_congr
      intro j _ hj
      exact Mem.store_of_lt _ _ hj
    have hnew := Mem.load_store_at s.mem (buf + rd) (Mem.load stream s.consumed len)
    rw [Mem.length_load] at hnew
    show Mem.load (Mem.store s.mem (buf + rd) (Mem.load stream s.consumed len)) buf (rd + len) = _
    rw [Mem.load_add, Mem.load_add, hold, hnew, h.consumed]
  frame j hj := by
    show Mem.store s.mem (buf + rd) (Mem.load stream s.consumed len) j = s₀.mem j
    rcases hj with hlt | hge
    · rw [Mem.store_of_lt _ _ (by omega)]
      exact h.frame j (Or.inl hlt)
    · rw [Mem.store_of_ge _ _ (by rw [Mem.length_load]; omega)]
      exact h.frame j (Or.inr (by omega))

/-- An error code changes nothing of what was received. -/
theorem Received.errno {rd : Nat} {s : RecvState} (h : Received stream buf s₀ rd s) (err : Errno) :
    Received stream buf s₀ rd { s with errno := err } :=
  ⟨h.consumed, h.bytes, h.frame⟩

/-- What the loop has come to when it ends: everything has arrived unless the connection has failed
    before. It ends when one of the two is the case. -/
structure LoopSpec (stream : Nat → UInt8) (buf : Nat) (s₀ : RecvState) (ndSize rdSize : UInt32)
    (os : List RecvOutcome) (r : Option (UInt32 × RecvState)) : Prop where
  ends : r.isSome = true ↔ FailsBefore (ndSize.toNat - rdSize.toNat) os ∨
    ndSize.toNat - rdSize.toNat ≤ arrived (ndSize.toNat - rdSize.toNat) os
  received : ∀ rdSize' s', r = some (rdSize', s') →
    Received stream buf s₀ rdSize'.toNat s' ∧ rdSize' ≤ ndSize ∧
      (rdSize' < ndSize ↔ FailsBefore (ndSize.toNat - rdSize.toNat) os)

variable {ndSize rdSize : UInt32} {os : List RecvOutcome} {s : RecvState}

/-- Everything has arrived: the loop is left. -/
theorem LoopSpec.of_full (hle : rdSize ≤ ndSize) (hfull : ¬ rdSize < ndSize)
    (hrec : Received stream buf s₀ rdSize.toNat s) :
    LoopSpec stream buf s₀ ndSize rdSize os (some (rdSize, s)) := by
  have hzero : ndSize.toNat - rdSize.toNat = 0 := by
    rw [UInt32.lt_iff_toNat_lt] at hfull
    omega
  -- nothing is missing, so no failure comes before
  have hnot : ¬ FailsBefore 0 os := fun ⟨_, _, _, _, _, hlt⟩ => Nat.not_lt_zero _ hlt
  refine ⟨?_, ?_⟩
  · simp [hzero]
  · intro rdSize' s' heq
    cases heq
    rw [hzero]
    exact ⟨hrec, hle, fun h => absurd h hfull, fun h => absurd h hnot⟩

/-- The connection fails: the loop is left with less than was asked for. -/
theorem LoopSpec.of_fatal {o : RecvOutcome} (hlt : rdSize < ndSize) (hfatal : Fatal o)
    (hrec : Received stream buf s₀ rdSize.toNat s) :
    LoopSpec stream buf s₀ ndSize rdSize (o :: os) (some (rdSize, s)) := by
  have hpos : 0 < ndSize.toNat - rdSize.toNat := by
    have := UInt32.lt_iff_toNat_lt.mp hlt
    omega
  have hfails : FailsBefore (ndSize.toNat - rdSize.toNat) (o :: os) :=
    (failsBefore_cons _ o os).mpr (Or.inl ⟨hfatal, hpos⟩)
  refine ⟨⟨fun _ => Or.inl hfails, fun _ => rfl⟩, ?_⟩
  intro rdSize' s' heq
  cases heq
  exact ⟨hrec, UInt32.le_of_lt hlt, fun _ => hfails, fun _ => hlt⟩

/-- The loop goes on with what the outcome has brought. -/
theorem LoopSpec.cons {o : RecvOutcome} {rdSize' : UInt32} {r : Option (UInt32 × RecvState)}
    (hfatal : ¬ Fatal o)
    (hnext : rdSize'.toNat = rdSize.toNat + got (ndSize.toNat - rdSize.toNat) o)
    (h : LoopSpec stream buf s₀ ndSize rdSize' os r) :
    LoopSpec stream buf s₀ ndSize rdSize (o :: os) r := by
  have hgot := got_le (ndSize.toNat - rdSize.toNat) o
  -- what is missing after the round
  have hrest : ndSize.toNat - rdSize'.toNat =
      ndSize.toNat - rdSize.toNat - got (ndSize.toNat - rdSize.toNat) o := by omega
  have hfails : FailsBefore (ndSize.toNat - rdSize.toNat) (o :: os) ↔
      FailsBefore (ndSize.toNat - rdSize'.toNat) os := by
    rw [failsBefore_cons, hrest]
    exact or_iff_right fun hf => hfatal hf.1
  have harrived : ndSize.toNat - rdSize.toNat ≤ arrived (ndSize.toNat - rdSize.toNat) (o :: os) ↔
      ndSize.toNat - rdSize'.toNat ≤ arrived (ndSize.toNat - rdSize'.toNat) os := by
    simp only [arrived, hrest]
    omega
  exact ⟨by rw [hfails, harrived]; exact h.ends, by rw [hfails]; exact h.received⟩

/-! One round of the loop, for each outcome. -/

/-- A round that receives data, -/
theorem recvLoop_data (hlt : rdSize < ndSize) (k : Nat) :
    recvLoop stream buf ndSize (.data k :: os) rdSize s =
      recvLoop stream buf ndSize os
        (rdSize + UInt32.ofNat (min (k + 1) (ndSize - rdSize).toNat))
        { s with
          mem := Mem.store s.mem (buf + rdSize.toNat)
            (Mem.load stream s.consumed (min (k + 1) (ndSize - rdSize).toNat))
          consumed := s.consumed + min (k + 1) (ndSize - rdSize).toNat } := by
  have hwant : 0 < (ndSize - rdSize).toNat := by
    rw [UInt32.toNat_sub_of_le _ _ (UInt32.le_of_lt hlt)]
    have := UInt32.lt_iff_toNat_lt.mp hlt
    omega
  have hlen : ¬ ((min (k + 1) (ndSize - rdSize).toNat : Nat) : Int) ≤ 0 := by omega
  rw [recvLoop, if_pos hlt]
  exact if_neg hlen

/-- a round with an error, -/
theorem recvLoop_error (hlt : rdSize < ndSize) (err : Errno) :
    recvLoop stream buf ndSize (.error err :: os) rdSize s =
      if recvRetries (tklNetGetErrno err) then
        recvLoop stream buf ndSize os rdSize { s with errno := err }
      else some (rdSize, { s with errno := err }) := by
  rw [recvLoop, if_pos hlt]
  exact if_pos (show (-1 : Int) ≤ 0 by decide)

/-- and one that finds the connection closed. -/
theorem recvLoop_close (hlt : rdSize < ndSize) :
    recvLoop stream buf ndSize (.close :: os) rdSize s =
      some (rdSize, { s with errno := .enotconn }) := by
  rw [recvLoop, if_pos hlt]
  rfl

/-- The bytes of a round fit, so that the running count does not wrap. -/
theorem toNat_rdSize_add (hlt : rdSize < ndSize) (k : Nat) :
    (rdSize + UInt32.ofNat (min (k + 1) (ndSize - rdSize).toNat)).toNat =
      rdSize.toNat + min (k + 1) (ndSize - rdSize).toNat := by
  have hwant := UInt32.toNat_sub_of_le _ _ (UInt32.le_of_lt hlt)
  have hsize := UInt32.toNat_lt ndSize
  rw [UInt32.lt_iff_toNat_lt] at hlt
  rw [UInt32.toNat_add, UInt32.toNat_ofNat']
  omega

/-- The loop, from any number of bytes on. -/
theorem recvLoop_spec (os : List RecvOutcome) (hle : rdSize ≤ ndSize)
    (hrec : Received stream buf s₀ rdSize.toNat s) :
    LoopSpec stream buf s₀ ndSize rdSize os (recvLoop stream buf ndSize os rdSize s) := by
  induction os generalizing rdSize s with
  | nil =>
    unfold recvLoop
    split
    · rename_i hlt
      have hpos := UInt32.lt_iff_toNat_lt.mp hlt
      -- the outcomes are used up with bytes missing: the call is still waiting
      refine ⟨⟨nofun, ?_⟩, nofun⟩
      rintro (hfails | harrived)
      · exact absurd hfails (not_failsBefore_nil _)
      · simp only [arrived] at harrived
        omega
    · rename_i hfull
      exact .of_full hle hfull hrec
  | cons o os ih =>
    -- something is missing, and the outcome of the call decides
    by_cases hlt : rdSize < ndSize
    · cases o with
      | data k =>
        have hnext := toNat_rdSize_add hlt k
        rw [recvLoop_data hlt]
        -- data never fails the connection
        apply LoopSpec.cons id
        · rw [hnext, UInt32.toNat_sub_of_le _ _ hle]
          rfl
        · apply ih
          · have hwant := UInt32.toNat_sub_of_le _ _ hle
            rw [UInt32.le_iff_toNat_le] at hle ⊢
            omega
          · rw [hnext]
            exact hrec.data _
      | error err =>
        rw [recvLoop_error hlt]
        split
        · -- an error that passes brings nothing, and the loop goes on
          rename_i hretry
          apply LoopSpec.cons
          · rintro ⟨hintr, hagain, -⟩
            exact ((recvRetries_iff err).mp hretry).elim hintr hagain
          · exact (Nat.add_zero _).symm
          · exact ih hle (hrec.errno err)
        · rename_i hretry
          apply LoopSpec.of_fatal hlt _ (hrec.errno err)
          have hne := fun h => hretry ((recvRetries_iff err).mpr h)
          exact ⟨fun h => hne (Or.inl h), fun h => hne (Or.inr h), fun h => hne (Or.inr h)⟩
      | close =>
        rw [recvLoop_close hlt]
        exact .of_fatal hlt trivial (hrec.errno .enotconn)
    · rw [recvLoop, if_neg hlt]
      exact .of_full hle hlt hrec

end

/-! ## The call -/

/-- The call has delivered the bytes asked for and consumed no others, or returned -2, which it does
    exactly if the connection has failed before they arrived; no other cell is written. -/
def RecvExact (stream : Nat → UInt8) (buf n : Nat) (os : List RecvOutcome) (s : RecvState)
    (r : Int × RecvState) : Prop :=
  (r.1 = n ∧ Mem.load r.2.mem buf n = Mem.load stream s.consumed n ∧
      r.2.consumed = s.consumed + n ∨ r.1 = -2) ∧
    (r.1 = -2 ↔ FailsBefore n os) ∧
    ∀ j, j < buf ∨ buf + n ≤ j → r.2.mem j = s.mem j

/-- With valid arguments the call is its loop. -/
theorem recvNdSize_of_valid (stream : Nat → UInt8) {fd : Int} (hfd : 0 ≤ fd) (buf : Nat)
    {bufSize ndSize : UInt32} (hpos : 0 < ndSize) (hle : ndSize ≤ bufSize)
    (os : List RecvOutcome) (s : RecvState) :
    tklNetRecvNdSize stream fd (some buf) bufSize ndSize os s =
      (recvLoop stream buf ndSize os 0 s).map fun p =>
        (if p.1 < ndSize then -2 else p.1.toInt32.toInt, p.2) := by
  rw [UInt32.lt_iff_toNat_lt] at hpos
  rw [UInt32.le_iff_toNat_le] at hle
  have hvalid : ¬ (fd < 0 ∨ bufSize = 0 ∨ ndSize = 0 ∨ bufSize < ndSize) := by
    rintro (h | rfl | rfl | h)
    · omega
    · simp at hle hpos
      omega
    · simp at hpos
    · rw [UInt32.lt_iff_toNat_lt] at h
      omega
  exact if_neg hvalid

/-- A request for nothing is an error. -/
theorem recvNdSize_zero (stream : Nat → UInt8) (fd : Int) (buf : Nat) (bufSize : UInt32)
    (os : List RecvOutcome) (s : RecvState) :
    tklNetRecvNdSize stream fd (some buf) bufSize 0 os s = some (-3000 + fd, s) :=
  if_pos (.inr (.inr (.inl rfl)))

/-- For every byte stream, every sequence of outcomes and every size from 1 up to that of the
    buffer, a call that returns has received exactly. It returns as soon as the bytes have arrived
    or the connection has failed. A call for no bytes is refused, and receives nothing. -/
theorem recvNdSize_exact (stream : Nat → UInt8) (fd : Int) (hfd : 0 ≤ fd) (buf : Nat)
    (bufSize ndSize : UInt32) (hpos : 0 < ndSize) (hle : ndSize ≤ bufSize)
    (hsize : bufSize.toNat < 2 ^ 31) (os : List RecvOutcome) (s : RecvState) :
    ((tklNetRecvNdSize stream fd (some buf) bufSize ndSize os s).isSome = true ↔
      FailsBefore ndSize.toNat os ∨ ndSize.toNat ≤ arrived ndSize.toNat os) ∧
    (∀ r, tklNetRecvNdSize stream fd (some buf) bufSize ndSize os s = some r →
      RecvExact stream buf ndSize.toNat os s r) ∧
    tklNetRecvNdSize stream fd (some buf) bufSize 0 os s = some (-3000 + fd, s) := by
  have hspec : LoopSpec stream buf s ndSize 0 os (recvLoop stream buf ndSize os 0 s) :=
    recvLoop_spec os (UInt32.le_iff_toNat_le.mpr (Nat.zero_le _)) ⟨rfl, rfl, fun _ _ => rfl⟩
  have hends := hspec.ends
  have hreceived := hspec.received
  rw [show ndSize.toNat - (0 : UInt32).toNat = ndSize.toNat from rfl] at hends hreceived
  rw [recvNdSize_of_valid stream hfd buf hpos hle os s, Option.isSome_map]
  refine ⟨hends, ?_, recvNdSize_zero stream fd buf bufSize os s⟩
  rw [UInt32.lt_iff_toNat_lt] at hpos
  rw [UInt32.le_iff_toNat_le] at hle
  intro r hr
  obtain ⟨⟨rdSize, s'⟩, hloop, rfl⟩ := Option.map_eq_some_iff.mp hr
  obtain ⟨hrec, hbound, hfails⟩ := hreceived rdSize s' hloop
  rw [UInt32.le_iff_toNat_le] at hbound
  have hframe : ∀ j, j < buf ∨ buf + ndSize.toNat ≤ j → s'.mem j = s.mem j := by
    intro j hj
    apply hrec.frame j
    omega
  -- the loop was left by a failure, or with all bytes
  by_cases hlt : rdSize < ndSize
  · refine ⟨Or.inr (if_pos hlt), ?_, hframe⟩
    exact ⟨fun _ => hfails.mp hlt, fun _ => if_pos hlt⟩
  · -- never more than asked for
    have hall : rdSize.toNat = ndSize.toNat := by
      rw [UInt32.lt_iff_toNat_lt] at hlt
      omega
    have hret : (if rdSize < ndSize then -2 else rdSize.toInt32.toInt) = (ndSize.toNat : Int) := by
      rw [if_neg hlt, ← hall]
      -- the result is signed; below `2 ^ 31` that makes no difference
      exact BitVec.toInt_eq_toNat_of_lt (show 2 * rdSize.toNat < 2 ^ 32 by omega)
    refine ⟨Or.inl ⟨hret, hall ▸ hrec.bytes, hall ▸ hrec.consumed⟩, ?_, hframe⟩
    show (if rdSize < ndSize then -2 else rdSize.toInt32.toInt) = -2 ↔ _
    rw [hret, ← hfails]
    exact ⟨fun h => by omega, fun h => absurd h hlt⟩

/-- Three bytes that come in two pieces, with an error that passes between them. -/
theorem recvNdSize_exact_pieces :
    ∃ r, tklNetRecvNdSize UInt8.ofNat 3 (some 100) 4 3 [.data 0, .error .eagain, .data 7]
        ⟨fun _ => 0, 5, .other 0⟩ = some r ∧
      RecvExact UInt8.ofNat 100 3 [.data 0, .error .eagain, .data 7]
        ⟨fun _ => 0, 5, .other 0⟩ r := by
  have h := recvNdSize_exact UInt8.ofNat 3 (by decide) 100 4 3 (by decide) (by decide) (by decide)
    [.data 0, .error .eagain, .data 7] ⟨fun _ => 0, 5, .other 0⟩
  obtain ⟨r, hr⟩ := Option.isSome_iff_exists.mp (h.1.mpr (Or.inr (by decide)))
  exact ⟨r, hr, h.2.1 r hr⟩

/-- Asked for no bytes at all, the call refuses its arguments. -/
theorem not_recvNdSize_exact :
    ∃ r, tklNetRecvNdSize UInt8.ofNat 3 (some 100) 16 0 [] ⟨fun _ => 0, 5, .other 0⟩ = some r ∧
      ¬ RecvExact UInt8.ofNat 100 0 [] ⟨fun _ => 0, 5, .other 0⟩ r := by
  refine ⟨(-2997, ⟨fun _ => 0, 5, .other 0⟩), rfl, ?_⟩
  rintro ⟨⟨hret, -, -⟩ | hret, -, -⟩
  · exact absurd hret (by decide)
  · exact absurd hret (by decide)

end Ivy.Spec
