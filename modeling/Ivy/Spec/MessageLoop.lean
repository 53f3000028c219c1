import Ivy.Spec.CloudMessage

/-!
# The loop over the data points of a message

The loop of `dev_obj_dp_cb` counts in a byte up to a number of 32 bits. A message of 256 data points
or more is left at the first one that is refused; without one among those that the byte can reach
the loop starts over and never ends.

## Key results

- `round_passed`, `round_stopped`: what one round does to the message and to the calls
- `loop_never_ends`: without a refusal within reach, no number of rounds is enough
- `message_ends_iff`: when a message is handled, with one call for each data point
-/

namespace Ivy.Spec

open Ivy.Native

/-! ## One round -/

/-- The loop goes on behind the data point. -/
def Passed (d : Device) (dp : DataPoint) : Prop :=
  dp.value = .other ∨ accepts d dp = true

instance (d : Device) (dp : DataPoint) : Decidable (Passed d dp) :=
  inferInstanceAs (Decidable (_ ∨ _))

/-- There is no data point at the index, or it is refused. -/
def StopsAt (d : Device) (dps : List DataPoint) (i : Nat) : Prop :=
  ∀ dp, dps[i]? = some dp → ¬ Passed d dp

/-- Whether a data point is passed depends on the pot only. -/
theorem passed_congr {d d' : Device} (h : d'.props .hasPot = d.props .hasPot) (dp : DataPoint) :
    Passed d' dp ↔ Passed d dp := by
  unfold Passed
  rw [accepts_congr h]

/-- So does where the loop stops. -/
theorem stopsAt_congr {d d' : Device} (h : d'.props .hasPot = d.props .hasPot)
    {dps : List DataPoint} {i : Nat} : StopsAt d' dps i ↔ StopsAt d dps i := by
  unfold StopsAt
  simp only [passed_congr h]

section

variable {dps : List DataPoint} {dp : DataPoint} {i : UInt8} {h : Handled}

/-- The calls of one round and of those behind it. -/
theorem calls_succ (hdp : dps[i.toNat]? = some dp) (fuel : Nat) (d : Device) :
    devObjDpCbCalls.loop dps (fuel + 1) i d =
      if dp.value = .other then devObjDpCbCalls.loop dps fuel (i + 1) d
      else if accepts d dp then i :: devObjDpCbCalls.loop dps fuel (i + 1) (handle d dp).2
      else [i] := by
  rw [devObjDpCbCalls.loop, hdp, ← handle_fst]
  unfold handle intValue
  dsimp only
  cases dp.value with
  | other => rfl
  | value v | bool v =>
    dsimp only
    rcases dpHandler d (Dp.ofByte dp.dpid) v with ⟨_ | _, device⟩ <;> rfl

/-- Behind a data point that is passed the loop goes on, and the pot has not moved. -/
theorem round_passed (hdp : dps[i.toNat]? = some dp) (hpass : Passed h.device dp) (fuel : Nat) :
    ∃ h' : Handled, h'.device.props .hasPot = h.device.props .hasPot ∧
      devObjDpCb.loop dps (fuel + 1) i h = devObjDpCb.loop dps fuel (i + 1) h' ∧
      devObjDpCbCalls.loop dps (fuel + 1) i h.device =
        (if dp.value = .other then [] else [i]) ++
          devObjDpCbCalls.loop dps fuel (i + 1) h'.device := by
  rw [loop_succ hdp, calls_succ hdp]
  by_cases hother : dp.value = .other
  · exact ⟨h, rfl, if_pos hother, by rw [if_pos hother, if_pos hother, List.nil_append]⟩
  · have haccept : accepts h.device dp = true := hpass.resolve_left hother
    simp only [if_neg hother, if_pos haccept]
    refine ⟨_, ?_, rfl, rfl⟩
    -- no data point writes `has_pot`, by which the later ones are accepted or refused
    show (handle h.device dp).2.props .hasPot = _
    rw [handle_props_of_accepts haccept]
    exact Store.execute_of_ne (cell_ne_hasPot dp)

/-- Where the loop stops, it calls `dp_handler` for this index at most. -/
theorem round_stopped (hstop : StopsAt h.device dps i.toNat) (fuel : Nat) :
    (∃ r, devObjDpCb.loop dps (fuel + 1) i h = some r) ∧
      (devObjDpCbCalls.loop dps (fuel + 1) i h.device = [] ∨
        devObjDpCbCalls.loop dps (fuel + 1) i h.device = [i] ∧ i.toNat < dps.length) := by
  cases hdp : dps[i.toNat]? with
  | none =>
    rw [devObjDpCb.loop, devObjDpCbCalls.loop, hdp]
    exact ⟨⟨_, rfl⟩, .inl rfl⟩
  | some dp =>
    -- a refused data point: `dp_handler` is called for it, and then the loop is left
    obtain ⟨hother, hrefuse⟩ := not_or.mp (hstop dp hdp)
    have hlt : i.toNat < dps.length := (List.getElem?_eq_some_iff.mp hdp).1
    rw [loop_succ hdp, calls_succ hdp, if_neg hother, if_neg hother, if_neg hrefuse,
      if_neg hrefuse]
    exact ⟨⟨_, rfl⟩, .inr ⟨rfl, hlt⟩⟩

/-! ## The whole loop -/

/-- If every index of a byte has a data point that is passed, the loop never ends. -/
theorem loop_never_ends (hall : ∀ i < 256, ¬ StopsAt h.device dps i) (fuel : Nat) :
    devObjDpCb.loop dps fuel i h = none := by
  induction fuel generalizing i h with
  | zero => rfl
  | succ fuel ih =>
    have hgoes := hall i.toNat i.toNat_lt
    simp only [StopsAt, not_forall, not_not] at hgoes
    obtain ⟨dp, hdp, hpass⟩ := hgoes
    obtain ⟨h', hpot, hloop, -⟩ := round_passed hdp hpass fuel
    rw [hloop]
    -- also when `i + 1` has wrapped
    apply ih
    intro j hj
    rw [stopsAt_congr hpot]
    exact hall j hj

/-- Calls in ascending order, from index `i` on and below `n`. -/
structure Ascending (n : Nat) (i : UInt8) (calls : List UInt8) : Prop where
  sorted : calls.Pairwise (· < ·)
  bounds : ∀ j ∈ calls, i ≤ j ∧ j.toNat < n

/-- A single call, at the index itself. -/
theorem Ascending.singleton {n : Nat} (hi : i.toNat < n) : Ascending n i [i] := by
  refine ⟨List.pairwise_singleton _ _, fun j hj => ?_⟩
  rw [List.mem_singleton.mp hj]
  exact ⟨UInt8.le_refl i, hi⟩

/-- The calls behind index `i`, with or without one for `i`. -/
theorem Ascending.step {n : Nat} {calls : List UInt8} (hc : Ascending n (i + 1) calls)
    (hnext : (i + 1).toNat = i.toNat + 1) (hi : i.toNat < n) {skip : Prop} [Decidable skip] :
    Ascending n i ((if skip then [] else [i]) ++ calls) := by
  -- without a wrap of the index the later calls are above `i`
  have hlater : ∀ j ∈ calls, i < j := by
    intro j hj
    have hle := UInt8.le_iff_toNat_le.mp (hc.bounds j hj).1
    exact UInt8.lt_iff_toNat_lt.mpr (by omega)
  have hcalls : Ascending n i calls :=
    ⟨hc.sorted, fun j hj => ⟨UInt8.le_of_lt (hlater j hj), (hc.bounds j hj).2⟩⟩
  split
  · exact hcalls
  · refine ⟨List.Pairwise.cons hlater hc.sorted, fun j hj => ?_⟩
    rcases List.mem_append.mp hj with hj | hj
    · exact (Ascending.singleton hi).bounds j hj
    · exact hcalls.bounds j hj

/-- Up to the index where it stops, the loop ends and calls `dp_handler` in ascending order. -/
theorem loop_ends {k : Nat} (hk : k < 256) (hstop : StopsAt h.device dps k) (hi : i.toNat ≤ k)
    (fuel : Nat) :
    (k < i.toNat + fuel → ∃ r, devObjDpCb.loop dps fuel i h = some r) ∧
      Ascending dps.length i (devObjDpCbCalls.loop dps fuel i h.device) := by
  induction fuel generalizing i h with
  | zero => exact ⟨fun hlt => by omega, List.Pairwise.nil, nofun⟩
  | succ fuel ih =>
    by_cases hhere : StopsAt h.device dps i.toNat
    · obtain ⟨hends, hcalls⟩ := round_stopped hhere fuel
      refine ⟨fun _ => hends, ?_⟩
      rcases hcalls with hcalls | ⟨hcalls, hlt⟩
      · rw [hcalls]
        exact ⟨List.Pairwise.nil, nofun⟩
      · rw [hcalls]
        exact .singleton hlt
    · -- not at `k` yet, so that the byte does not wrap
      have hlt : i.toNat ≠ k := fun heq => hhere (heq ▸ hstop)
      have hnext : (i + 1).toNat = i.toNat + 1 := by
        rw [UInt8.toNat_add, UInt8.toNat_one]
        omega
      simp only [StopsAt, not_forall, not_not] at hhere
      obtain ⟨dp, hdp, hpass⟩ := hhere
      obtain ⟨h', hpot, hloop, hcalls⟩ := round_passed hdp hpass fuel
      obtain ⟨hends, hascending⟩ :=
        ih (i := i + 1) ((stopsAt_congr hpot).mpr hstop) (by omega)
      rw [hloop, hcalls]
      refine ⟨fun hfuel => hends (by omega), hascending.step hnext ?_⟩
      exact (List.getElem?_eq_some_iff.mp hdp).1

end

/-! ## Messages -/

/-- The callback returns, having called `dp_handler` at most once for each index below the number of
    data points. -/
def MessageEnds (d : Device) (dps : List DataPoint) : Prop :=
  (∃ fuel h, devObjDpCb fuel d dps = some h) ∧
    ∀ fuel, (devObjDpCbCalls fuel d dps).Nodup ∧
      ∀ i ∈ devObjDpCbCalls fuel d dps, i.toNat < dps.length

/-- The byte can count the data points, or one that it reaches is refused. -/
def WithinReach (d : Device) (dps : List DataPoint) : Prop :=
  dps.length ≤ 255 ∨ ∃ dp ∈ dps.take 256, dp.value ≠ .other ∧ accepts d dp = false

instance (d : Device) (dps : List DataPoint) : Decidable (WithinReach d dps) :=
  inferInstanceAs (Decidable (_ ∨ _))

/-- In terms of the index. -/
theorem withinReach_iff {d : Device} {dps : List DataPoint} :
    WithinReach d dps ↔ ∃ k < 256, StopsAt d dps k := by
  constructor
  · rintro (hshort | ⟨dp, hmem, htyped, hrefuse⟩)
    · -- at the latest there is nothing at index 255
      refine ⟨255, by omega, fun dp hdp => ?_⟩
      rw [List.getElem?_eq_none hshort] at hdp
      exact nomatch hdp
    · obtain ⟨k, hk, hget⟩ := List.mem_take_iff_getElem.mp hmem
      refine ⟨k, by omega, fun dp' hdp' => ?_⟩
      obtain ⟨-, rfl⟩ := List.getElem?_eq_some_iff.mp hdp'
      rw [hget]
      exact not_or.mpr ⟨htyped, Bool.eq_false_iff.mp hrefuse⟩
  · rintro ⟨k, hk, hstop⟩
    cases hdp : dps[k]? with
    | none =>
      rw [List.getElem?_eq_none_iff] at hdp
      exact .inl (by omega)
    | some dp =>
      obtain ⟨htyped, hrefuse⟩ := not_or.mp (hstop dp hdp)
      refine .inr ⟨dp, ?_, htyped, Bool.eq_false_iff.mpr hrefuse⟩
      obtain ⟨hlt, hget⟩ := List.getElem?_eq_some_iff.mp hdp
      exact List.mem_take_iff_getElem.mpr ⟨k, by omega, hget⟩

/-- For every state of the device and every message: the callback returns after at most one call for
    each index exactly if the byte can count the data points or reaches one that is refused. -/
theorem message_ends_iff (d : Device) (dps : List DataPoint) :
    MessageEnds d dps ↔ WithinReach d dps := by
  rw [withinReach_iff]
  constructor
  · rintro ⟨⟨fuel, h, hreturns⟩, -⟩
    -- without an index at which the loop stops it would never return
    by_contra hnone
    have hall : ∀ i < 256, ¬ StopsAt d dps i := fun i hi hstop => hnone ⟨i, hi, hstop⟩
    have hforever := loop_never_ends (i := 0) (h := ⟨d, [], []⟩) hall fuel
    exact nomatch hforever.symm.trans hreturns
  · rintro ⟨k, hk, hstop⟩
    have hloop := fun fuel =>
      loop_ends (i := 0) (h := ⟨d, [], []⟩) hk hstop (Nat.zero_le _) fuel
    refine ⟨⟨k + 1, (hloop (k + 1)).1 (by simp)⟩, fun fuel => ⟨?_, ?_⟩⟩
    · exact (hloop fuel).2.sorted.imp UInt8.ne_of_lt
    · exact fun i hi => ((hloop fuel).2.bounds i hi).2

/-- A message of 256 times the brightness: the loop never ends, and the first data point is handled
    again in round 257. -/
theorem not_message_ends :
    (∀ fuel, devObjDpCb fuel ⟨fun _ => 0, []⟩ (List.replicate 256 ⟨101, .value 80⟩) = none) ∧
      (devObjDpCbCalls 257 ⟨fun _ => 0, []⟩ (List.replicate 256 ⟨101, .value 80⟩)).count 0 = 2 ∧
      ¬ MessageEnds ⟨fun _ => 0, []⟩ (List.replicate 256 ⟨101, .value 80⟩) := by
  have hforever : ∀ fuel,
      devObjDpCb fuel ⟨fun _ => 0, []⟩ (List.replicate 256 ⟨101, .value 80⟩) = none := by
    intro fuel
    apply loop_never_ends
    intro i hi hstop
    exact hstop _ (List.getElem?_replicate_of_lt hi) (by decide)
  refine ⟨hforever, by decide +kernel, ?_⟩
  rintro ⟨⟨fuel, h, hreturns⟩, -⟩
  rw [hforever] at hreturns
  exact nomatch hreturns

end Ivy.Spec
