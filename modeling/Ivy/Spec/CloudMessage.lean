import Ivy.ForStd.KeyStore
import Ivy.Native.DataPoint
import Mathlib.Data.List.Nodup

/-!
# Messages from the cloud

`dev_obj_dp_cb` leaves at the first data point that `dp_handler` refuses, without a
report. Data points that are accepted change different keys, so their order does not
matter; whether one is accepted does not depend on the others. A message is handled
independently of its order exactly if all of its data points are accepted, or all are
refused and the refusals leave the properties alone (`Uniform`).
-/

namespace Ivy.Spec

open Ivy.Native Ivy.Store

/-! ## One data point -/

/-- The integer that is handed to `dp_handler`. -/
def intValue (dp : DataPoint) : Int :=
  match dp.value with
  | .value v | .bool v => v
  | .other => 0

/-- `dp_handler` on one data point. -/
def handle (d : Device) (dp : DataPoint) : Bool × Device :=
  dpHandler d (Dp.ofByte dp.dpid) (intValue dp)

/-- The data points that `dp_handler` accepts: all it has a case for except
    `evolve_status`, system commands, and a manual calibration with the pot in. -/
def accepts (d : Device) (dp : DataPoint) : Bool :=
  match Dp.ofByte dp.dpid with
  | none | some .evolveStatus | some .sysCmd => false
  | some .waterManualCalib => !(intValue dp != 0 && d.props .hasPot != 0)
  | some _ => true

/-- The key a data point changes when it is accepted. -/
def Dp.cell : Dp → Option PropKey
  | .brightness => some .brightness
  | .hasPot => some .manualHasPot
  | .touchEnable => some .touchEnable
  | .color => some .color
  | .earSensitivity => some .earSensitivity
  | .potSensitivity => some .potSensitivity
  | .plantType => some .plantType
  | .plantAutoDetect => some .plantAutoDetect
  | .earEnable => some .earEnable
  | .useFahrenheit => some .useFahrenheit
  | .enableNightSleep => some .enableNightSleep
  | .enableSleep => some .enableSleep
  | .nightSleepStart => some .nightSleepStart
  | .nightSleepPeriod => some .nightSleepPeriod
  | .autoBrightness => some .autoBrightness
  | .use12hMode => some .use12hMode
  | .customAnimLastT => some .customAnimLastT
  | .enableLocationWeather => some .enableLocationWeather
  | .longitude => some .longitude
  | .latitude => some .latitude
  | .language => some .languageChanged
  | .evolveStatus | .sysCmd | .waterManualCalib => none

def cell (dp : DataPoint) : Option PropKey :=
  (Dp.ofByte dp.dpid).bind Dp.cell

/-- What an accepted data point changes the value of its key to. -/
def newValue (dp : DataPoint) (old : Int) : Int :=
  match Dp.ofByte dp.dpid with
  | some .language => if old = 0 then 1 else old
  | _ => intValue dp

/-- The data point that changes a key when it is accepted. -/
def PropKey.dp : PropKey → Option Dp
  | .brightness => some .brightness
  | .manualHasPot => some .hasPot
  | .touchEnable => some .touchEnable
  | .color => some .color
  | .earSensitivity => some .earSensitivity
  | .potSensitivity => some .potSensitivity
  | .plantType => some .plantType
  | .plantAutoDetect => some .plantAutoDetect
  | .earEnable => some .earEnable
  | .useFahrenheit => some .useFahrenheit
  | .enableNightSleep => some .enableNightSleep
  | .enableSleep => some .enableSleep
  | .nightSleepStart => some .nightSleepStart
  | .nightSleepPeriod => some .nightSleepPeriod
  | .autoBrightness => some .autoBrightness
  | .use12hMode => some .use12hMode
  | .customAnimLastT => some .customAnimLastT
  | .enableLocationWeather => some .enableLocationWeather
  | .longitude => some .longitude
  | .latitude => some .latitude
  | .languageChanged => some .language
  | .hasPot | .waterManualCalib => none

/-- A cell belongs to the data point that writes it. -/
theorem dp_of_cell {x : Dp} {k : PropKey} (h : Dp.cell x = some k) : PropKey.dp k = some x := by
  cases x <;> cases h <;> rfl

/-- No data point changes what the pot sensor says. -/
theorem cell_ne_hasPot (dp : DataPoint) : cell dp ≠ some .hasPot := by
  intro h
  obtain ⟨x, -, hcell⟩ := Option.bind_eq_some_iff.mp h
  exact nomatch dp_of_cell hcell

/-- A known data point is known by its id. -/
theorem id_of_ofByte {b : UInt8} {x : Dp} (h : Dp.ofByte b = some x) : b = x.id := by
  unfold Dp.ofByte at h
  split at h <;> cases h <;> rfl

/-- Data points with different ids change different keys. -/
theorem cell_ne {dp dp' : DataPoint} (h : dp.dpid ≠ dp'.dpid) (k : PropKey)
    (hk : cell dp = some k) : cell dp' ≠ some k := by
  intro hk'
  obtain ⟨x, hx, hcell⟩ := Option.bind_eq_some_iff.mp hk
  obtain ⟨x', hx', hcell'⟩ := Option.bind_eq_some_iff.mp hk'
  -- the key gives the data point back
  have heq : x = x' := Option.some.inj ((dp_of_cell hcell).symm.trans (dp_of_cell hcell'))
  apply h
  rw [id_of_ofByte hx, id_of_ofByte hx', heq]

section

variable (d : Device) (dp : DataPoint)

/-- The result of the callback says whether the point was accepted. -/
theorem handle_fst : (handle d dp).1 = accepts d dp := by
  unfold handle accepts
  cases Dp.ofByte dp.dpid with
  | none => rfl
  | some x =>
    cases x with
    | waterManualCalib =>
      unfold dpHandler
      -- a calibration is refused with a pot in place
      by_cases hrefuse : intValue dp ≠ 0 ∧ d.props .hasPot ≠ 0
      · simp [hrefuse]
      · simp only [if_neg hrefuse]
        simpa [or_iff_not_imp_left] using hrefuse
    | language =>
      unfold dpHandler
      dsimp only
      split <;> rfl
    | _ => rfl

/-- A system command writes no property. -/
theorem processSysCmd_props (cmd : Int) : (processSysCmd d cmd).props = d.props := by
  unfold processSysCmd
  split <;> rfl

variable {d dp}

/-- An accepted data point changes its key and nothing else. -/
theorem handle_props_of_accepts (h : accepts d dp = true) :
    (handle d dp).2.props = execute cell newValue d.props dp := by
  unfold handle execute cell newValue
  unfold accepts at h
  cases hx : Dp.ofByte dp.dpid with
  | none => rw [hx] at h; exact nomatch h
  | some x =>
    rw [hx] at h
    cases x with
    | evolveStatus | sysCmd => exact nomatch h
    | waterManualCalib =>
      -- the calibration was accepted
      have haccept : ¬ (intValue dp ≠ 0 ∧ d.props .hasPot ≠ 0) := by
        simpa [or_iff_not_imp_left] using h
      unfold dpHandler
      simp only [if_neg haccept]
      rfl
    | language =>
      unfold dpHandler
      -- the first change of the language is remembered
      by_cases hchanged : d.props .languageChanged = 0
      · simp only [if_pos hchanged, Option.bind_some, Dp.cell]
        rfl
      · simp only [if_neg hchanged, Option.bind_some, Dp.cell, Function.update_eq_self]
        rfl
    | _ => rfl

/-- A data point that is refused changes no property, except that a manual calibration is
    switched off. -/
theorem handle_props_of_refused (h : accepts d dp = false) :
    (handle d dp).2.props =
      if Dp.ofByte dp.dpid = some .waterManualCalib then
        Function.update d.props .waterManualCalib 0
      else d.props := by
  unfold handle
  unfold accepts at h
  cases hx : Dp.ofByte dp.dpid with
  | none => rfl
  | some x =>
    rw [hx] at h
    cases x with
    | evolveStatus => rfl
    | sysCmd => exact processSysCmd_props d _
    | waterManualCalib =>
      -- a refused calibration is switched off
      have hrefuse : intValue dp ≠ 0 ∧ d.props .hasPot ≠ 0 := by simpa using h
      unfold dpHandler
      simp only [if_pos hrefuse]
      rfl
    | _ => exact nomatch h

/-- Whether a data point is accepted depends on the pot sensor only. -/
theorem accepts_congr {d' : Device} (h : d'.props .hasPot = d.props .hasPot) :
    accepts d' dp = accepts d dp := by
  unfold accepts
  rw [h]

/-- Accepting one point does not change what is accepted. -/
theorem accepts_handle {dp' : DataPoint} (h : accepts d dp = true) :
    accepts (handle d dp).2 dp' = accepts d dp' := by
  apply accepts_congr
  rw [handle_props_of_accepts h]
  exact execute_of_ne (cell_ne_hasPot dp)

end

/-! ## A whole message -/

/-- The data points still to come, one after the other: `dev_obj_dp_cb` without the byte
    counter. -/
def deliver (all : List DataPoint) : List DataPoint → Handled → Handled
  | [], h => { h with reported := all }
  | dp :: dps, h =>
    if dp.value = .other then deliver all dps h
    else
      match handle h.device dp with
      | (true, device) =>
        deliver all dps { h with device := device, applied := h.applied ++ [dp] }
      | (false, device) => { h with device := device }

/-- One data point of `deliver`. -/
theorem deliver_cons (all : List DataPoint) (dp : DataPoint) (dps : List DataPoint) (h : Handled) :
    deliver all (dp :: dps) h =
      if dp.value = .other then deliver all dps h
      else if accepts h.device dp then
        deliver all dps
          { h with device := (handle h.device dp).2, applied := h.applied ++ [dp] }
      else { h with device := (handle h.device dp).2 } := by
  rw [deliver, ← handle_fst]
  rcases handle h.device dp with ⟨_ | _, device⟩ <;> rfl

/-- One round of the loop. -/
theorem loop_succ {dps : List DataPoint} {i : UInt8} {dp : DataPoint}
    (hdp : dps[i.toNat]? = some dp) (fuel : Nat) (h : Handled) :
    devObjDpCb.loop dps (fuel + 1) i h =
      if dp.value = .other then devObjDpCb.loop dps fuel (i + 1) h
      else if accepts h.device dp then
        devObjDpCb.loop dps fuel (i + 1)
          { h with device := (handle h.device dp).2, applied := h.applied ++ [dp] }
      else some { h with device := (handle h.device dp).2 } := by
  rw [devObjDpCb.loop, hdp, ← handle_fst]
  unfold handle intValue
  dsimp only
  cases dp.value with
  | other => rfl
  | value v | bool v =>
    dsimp only
    rcases dpHandler h.device (Dp.ofByte dp.dpid) v with ⟨_ | _, device⟩ <;> rfl

/-- The loop reaches every data point that the byte can count. -/
theorem loop_eq_deliver {dps : List DataPoint} (hshort : dps.length ≤ 255) (fuel : Nat)
    (i : UInt8) (h : Handled) (hi : i.toNat ≤ dps.length) (hfuel : dps.length < i.toNat + fuel) :
    devObjDpCb.loop dps fuel i h = some (deliver dps (dps.drop i.toNat) h) := by
  induction fuel generalizing i h with
  | zero => omega
  | succ fuel ih =>
    cases hdp : dps[i.toNat]? with
    | none =>
      rw [devObjDpCb.loop, hdp]
      rw [List.getElem?_eq_none_iff] at hdp
      rw [List.drop_eq_nil_of_le hdp]
      rfl
    | some dp =>
      obtain ⟨hlt, hget⟩ := List.getElem?_eq_some_iff.mp hdp
      -- the byte does not wrap as long as there are data points left
      have hnext : (i + 1).toNat = i.toNat + 1 := by
        rw [UInt8.toNat_add, UInt8.toNat_one]
        omega
      have hrest := fun h => ih (i + 1) h (by omega) (by omega)
      rw [List.drop_eq_getElem_cons hlt, hget, deliver_cons, loop_succ hdp, hrest, hrest, hnext]
      simp only [apply_ite some]

/-- Up to 255 points are delivered one after the other. -/
theorem devObjDpCb_eq {dps : List DataPoint} (hshort : dps.length ≤ 255) {fuel : Nat}
    (hfuel : dps.length < fuel) (d : Device) :
    devObjDpCb fuel d dps = some (deliver dps dps ⟨d, [], []⟩) :=
  loop_eq_deliver hshort fuel 0 _ (Nat.zero_le _) (by simpa using hfuel)

section

variable {h : Handled} {all pre post : List DataPoint} {dp : DataPoint}

/-- Accepted data points are passed over, each changing its own key. -/
theorem deliver_append (all post : List DataPoint) (htyped : ∀ dp ∈ pre, dp.value ≠ .other)
    (haccept : ∀ dp ∈ pre, accepts h.device dp = true) :
    ∃ device, deliver all (pre ++ post) h =
        deliver all post { h with device := device, applied := h.applied ++ pre } ∧
      device.props = pre.foldl (execute cell newValue) h.device.props := by
  induction pre generalizing h with
  | nil => exact ⟨h.device, by simp, rfl⟩
  | cons dp pre ih =>
    have hdp := haccept dp List.mem_cons_self
    -- the data points behind `dp` are accepted after it as they were before
    obtain ⟨device, hrest, hprops⟩ := ih
      (h := { h with device := (handle h.device dp).2, applied := h.applied ++ [dp] })
      (fun dp' hmem => htyped dp' (List.mem_cons_of_mem _ hmem))
      (fun dp' hmem => by
        rw [accepts_handle hdp]; exact haccept dp' (List.mem_cons_of_mem _ hmem))
    refine ⟨device, ?_, ?_⟩
    · rw [List.cons_append, deliver_cons, if_neg (htyped dp List.mem_cons_self), if_pos hdp, hrest,
        List.append_assoc, List.singleton_append]
    · rw [hprops, handle_props_of_accepts hdp]
      rfl

/-- At a refused data point the message is left. -/
theorem deliver_refused (htyped : dp.value ≠ .other) (hrefuse : accepts h.device dp = false) :
    deliver all (dp :: post) h = { h with device := (handle h.device dp).2 } := by
  rw [deliver_cons, if_neg htyped, if_neg (by simp [hrefuse])]

end

/-! ## Independence -/

/-- A message of properties with different ids that the byte can count. -/
structure Plain (dps : List DataPoint) : Prop where
  typed : ∀ dp ∈ dps, dp.value ≠ .other
  distinct : (dps.map DataPoint.dpid).Nodup
  short : dps.length ≤ 255

/-- The order of the points does not matter for this. -/
theorem Plain.perm {dps dps' : List DataPoint} (h : Plain dps) (hperm : dps'.Perm dps) :
    Plain dps' :=
  ⟨fun dp hmem => h.typed dp (hperm.mem_iff.mp hmem),
    (hperm.map DataPoint.dpid).nodup_iff.mpr h.distinct, hperm.length_eq ▸ h.short⟩

/-- Every data point that is accepted when received alone is applied, every one that is
    applied is reported, and the properties end the same for every order. -/
def Independent (d : Device) (dps : List DataPoint) : Prop :=
  ∃ h, (∀ fuel, dps.length < fuel → devObjDpCb fuel d dps = some h) ∧
    (∀ dp ∈ dps, (handle d dp).1 = true → dp ∈ h.applied) ∧
    (∀ dp ∈ h.applied, dp ∈ h.reported) ∧
    ∀ dps', dps'.Perm dps → ∃ h',
      (∀ fuel, dps'.length < fuel → devObjDpCb fuel d dps' = some h') ∧
      h'.device.props = h.device.props

/-- All data points of the message are accepted, or all are refused and none of them is a
    manual calibration that would be switched off for one order and not for another. -/
def Uniform (d : Device) (dps : List DataPoint) : Prop :=
  (∀ dp ∈ dps, accepts d dp = true) ∨
    (∀ dp ∈ dps, accepts d dp = false) ∧
      (dps.length ≤ 1 ∨ d.props .waterManualCalib = 0 ∨
        ∀ dp ∈ dps, Dp.ofByte dp.dpid ≠ some .waterManualCalib)

section

variable {d : Device} {dps : List DataPoint}

/-- In terms of `deliver`. -/
theorem independent_iff (hplain : Plain dps) :
    Independent d dps ↔
      (∀ dp ∈ dps, accepts d dp = true → dp ∈ (deliver dps dps ⟨d, [], []⟩).applied) ∧
      (∀ dp ∈ (deliver dps dps ⟨d, [], []⟩).applied,
        dp ∈ (deliver dps dps ⟨d, [], []⟩).reported) ∧
      ∀ dps', dps'.Perm dps →
        (deliver dps' dps' ⟨d, [], []⟩).device.props =
          (deliver dps dps ⟨d, [], []⟩).device.props := by
  unfold Independent
  simp only [handle_fst]
  constructor
  · rintro ⟨h, hrun, happly, hreport, hperms⟩
    -- there is enough fuel
    have heq := hrun (dps.length + 1) (by omega)
    rw [devObjDpCb_eq hplain.short (by omega)] at heq
    cases heq
    refine ⟨happly, hreport, fun dps' hperm => ?_⟩
    obtain ⟨h', hrun', hprops⟩ := hperms dps' hperm
    have heq' := hrun' (dps'.length + 1) (by omega)
    rw [devObjDpCb_eq (hplain.perm hperm).short (by omega)] at heq'
    cases heq'
    exact hprops
  · rintro ⟨happly, hreport, hperms⟩
    refine ⟨_, fun fuel hfuel => devObjDpCb_eq hplain.short hfuel d, happly, hreport, ?_⟩
    intro dps' hperm
    exact ⟨_, fun fuel hfuel => devObjDpCb_eq (hplain.perm hperm).short hfuel d,
      hperms dps' hperm⟩

/-- When all points are accepted all are applied and reported. -/
theorem deliver_accepted (hplain : Plain dps) (haccept : ∀ dp ∈ dps, accepts d dp = true) :
    (deliver dps dps ⟨d, [], []⟩).applied = dps ∧
      (deliver dps dps ⟨d, [], []⟩).reported = dps ∧
      (deliver dps dps ⟨d, [], []⟩).device.props =
        dps.foldl (execute cell newValue) d.props := by
  obtain ⟨device, hdeliver, hprops⟩ := deliver_append (h := ⟨d, [], []⟩) dps []
    hplain.typed haccept
  rw [List.append_nil] at hdeliver
  rw [hdeliver]
  exact ⟨rfl, rfl, hprops⟩

/-- A refused point in front stops the others. -/
theorem deliver_cons_refused {dp : DataPoint} {post : List DataPoint}
    (hplain : Plain (dp :: post)) (hrefuse : accepts d dp = false) :
    deliver (dp :: post) (dp :: post) ⟨d, [], []⟩ = ⟨(handle d dp).2, [], []⟩ :=
  deliver_refused (hplain.typed dp List.mem_cons_self) hrefuse

/-- No id comes twice. -/
theorem Plain.eq_of_dpid {dp dp' : DataPoint} (hplain : Plain dps) (hmem : dp ∈ dps)
    (hmem' : dp' ∈ dps) (hid : dp.dpid = dp'.dpid) : dp = dp' :=
  List.inj_on_of_nodup_map hplain.distinct hmem hmem' hid

/-- A message of accepted data points ends the same in every order. -/
theorem independent_of_accepted (hplain : Plain dps)
    (haccept : ∀ dp ∈ dps, accepts d dp = true) : Independent d dps := by
  obtain ⟨happly, hreport, hprops⟩ := deliver_accepted hplain haccept
  rw [independent_iff hplain, happly, hreport, hprops]
  refine ⟨fun dp hmem _ => hmem, fun dp hmem => hmem, fun dps' hperm => ?_⟩
  have haccept' : ∀ dp ∈ dps', accepts d dp = true :=
    fun dp hmem => haccept dp (hperm.mem_iff.mp hmem)
  rw [(deliver_accepted (hplain.perm hperm) haccept').2.2]
  apply foldl_execute_perm hperm
  intro a ha b hb hne
  exact cell_ne fun hid => hne ((hplain.perm hperm).eq_of_dpid ha hb hid)

/-- A refused data point leaves the properties alone if it is no manual calibration or the
    calibration is off already. -/
theorem handle_props_eq_self {dp : DataPoint} (hrefuse : accepts d dp = false)
    (h : d.props .waterManualCalib = 0 ∨ Dp.ofByte dp.dpid ≠ some .waterManualCalib) :
    (handle d dp).2.props = d.props := by
  rw [handle_props_of_refused hrefuse]
  split
  · rename_i hcalib
    obtain hoff | hne := h
    · rw [← hoff, Function.update_eq_self]
    · exact absurd hcalib hne
  · rfl

/-- When all points are refused nothing changes. -/
theorem deliver_props_eq_self (hplain : Plain dps) (hrefuse : ∀ dp ∈ dps, accepts d dp = false)
    (h : d.props .waterManualCalib = 0 ∨
      ∀ dp ∈ dps, Dp.ofByte dp.dpid ≠ some .waterManualCalib) :
    (deliver dps dps ⟨d, [], []⟩).device.props = d.props := by
  cases dps with
  | nil => rfl
  | cons dp post =>
    have hdp := hrefuse dp List.mem_cons_self
    rw [deliver_cons_refused hplain hdp]
    exact handle_props_eq_self hdp (h.imp_right fun hne => hne dp List.mem_cons_self)

/-- Messages that are refused as a whole do not depend on the order. -/
theorem independent_of_refused (hplain : Plain dps)
    (hrefuse : ∀ dp ∈ dps, accepts d dp = false)
    (hcalib : dps.length ≤ 1 ∨ d.props .waterManualCalib = 0 ∨
      ∀ dp ∈ dps, Dp.ofByte dp.dpid ≠ some .waterManualCalib) : Independent d dps := by
  have happly : (deliver dps dps ⟨d, [], []⟩).applied = [] := by
    cases dps with
    | nil => rfl
    | cons dp post => rw [deliver_cons_refused hplain (hrefuse dp List.mem_cons_self)]
  rw [independent_iff hplain, happly]
  refine ⟨fun dp hmem haccept => ?_, nofun, fun dps' hperm => ?_⟩
  · rw [hrefuse dp hmem] at haccept
    exact nomatch haccept
  · obtain hone | hkeep := hcalib
    · -- there is one order only
      cases dps with
      | nil => rw [hperm.eq_nil]
      | cons dp post =>
        have hpost : post = [] := by
          rw [List.length_cons] at hone
          exact List.length_eq_zero_iff.mp (by omega)
        rw [hpost, List.perm_singleton] at hperm
        rw [hperm, hpost]
    · rw [deliver_props_eq_self hplain hrefuse hkeep,
        deliver_props_eq_self (hplain.perm hperm)
          (fun dp hmem => hrefuse dp (hperm.mem_iff.mp hmem))
          (hkeep.imp_right fun hne dp hmem => hne dp (hperm.mem_iff.mp hmem))]

/-- In a message that is handled independently, one refusal means that all data points are
    refused: the accepted ones in front of it are not reported, those behind it are not
    applied. -/
theorem refused_of_independent (hplain : Plain dps) (hind : Independent d dps)
    {bad : DataPoint} (hbad : bad ∈ dps) (hrefuse : accepts d bad = false) :
    ∀ dp ∈ dps, accepts d dp = false := by
  obtain ⟨happly, hreport, -⟩ := (independent_iff hplain).mp hind
  -- split the message at its first refusal
  obtain ⟨first, hfirst⟩ : ∃ dp, dps.find? (fun dp => !accepts d dp) = some dp := by
    rw [← Option.isSome_iff_exists, List.find?_isSome]
    exact ⟨bad, hbad, by rw [hrefuse]; rfl⟩
  obtain ⟨hfalse, pre, post, hsplit, hpre⟩ := List.find?_eq_some_iff_append.mp hfirst
  have hfirst' : accepts d first = false := by simpa using hfalse
  have hpre' : ∀ dp ∈ pre, accepts d dp = true := fun dp hmem => by simpa using hpre dp hmem
  have hmem_pre : ∀ dp ∈ pre, dp ∈ dps := fun dp hmem => by rw [hsplit]; simp [hmem]
  obtain ⟨device, hdeliver, hprops⟩ := deliver_append (h := ⟨d, [], []⟩) dps
    (first :: post) (fun dp hmem => hplain.typed dp (hmem_pre dp hmem)) hpre'
  -- the accepted ones have not moved the pot
  have hpot : accepts device first = false := by
    rw [accepts_congr (d := d), hfirst']
    rw [hprops]
    exact foldl_execute_of_ne (fun dp _ => cell_ne_hasPot dp) _
  rw [deliver_refused (hplain.typed first (by rw [hsplit]; simp)) hpot, ← hsplit] at hdeliver
  rw [hdeliver] at happly hreport
  -- nothing was reported, so nothing may have been applied
  have hnil : pre = [] := List.eq_nil_iff_forall_not_mem.mpr fun dp hmem =>
    absurd (hreport dp hmem) List.not_mem_nil
  intro dp hmem
  cases haccept : accepts d dp with
  | false => rfl
  | true =>
    have happlied := happly dp hmem haccept
    rw [hnil] at happlied
    exact absurd happlied List.not_mem_nil

/-- With two data points or more, all refused, a manual calibration among them is switched
    off in some orders and stays on in others. -/
theorem calib_of_independent (hplain : Plain dps) (hind : Independent d dps)
    (hrefuse : ∀ dp ∈ dps, accepts d dp = false) :
    dps.length ≤ 1 ∨ d.props .waterManualCalib = 0 ∨
      ∀ dp ∈ dps, Dp.ofByte dp.dpid ≠ some .waterManualCalib := by
  obtain ⟨-, -, hperms⟩ := (independent_iff hplain).mp hind
  by_contra hnot
  simp only [not_or, not_forall, ne_eq, not_not, Nat.not_le] at hnot
  obtain ⟨hlen, hon, calib, hmem, hcalib⟩ := hnot
  have hnodup : dps.Nodup := List.Nodup.of_map _ hplain.distinct
  obtain ⟨other, hother⟩ : ∃ dp, dp ∈ dps.erase calib := by
    apply List.exists_mem_of_length_pos
    rw [List.length_erase_of_mem hmem]
    omega
  obtain ⟨hne, hmem'⟩ := hnodup.mem_erase_iff.mp hother
  -- any point can be put in front, and then it alone decides
  have hfront : ∀ dp ∈ dps, (handle d dp).2.props =
      (deliver dps dps ⟨d, [], []⟩).device.props := by
    intro dp hdp
    have hperm := (List.perm_cons_erase hdp).symm
    rw [← hperms _ hperm, deliver_cons_refused (hplain.perm hperm) (hrefuse dp hdp)]
  have hother' : Dp.ofByte other.dpid ≠ some .waterManualCalib := by
    intro h
    exact hne (hplain.eq_of_dpid hmem' hmem (by rw [id_of_ofByte h, id_of_ofByte hcalib]))
  -- the calibration in front switches it off, the other one in front does not
  have heq := (hfront calib hmem).trans (hfront other hmem').symm
  rw [handle_props_of_refused (hrefuse calib hmem), if_pos hcalib,
    handle_props_eq_self (hrefuse other hmem') (.inr hother')] at heq
  have hoff := congrFun heq .waterManualCalib
  rw [Function.update_self] at hoff
  exact hon hoff.symm

/-- A message of properties with different ids is handled independently of its order and
    mix exactly if its data points are all accepted, or all refused and the refusals leave
    the properties alone. -/
theorem independent_iff_uniform (d : Device) (dps : List DataPoint) (hplain : Plain dps) :
    Independent d dps ↔ Uniform d dps := by
  constructor
  · intro hind
    -- all are accepted, or else all are refused
    by_cases hall : ∀ dp ∈ dps, accepts d dp = true
    · exact .inl hall
    · simp only [not_forall, Bool.not_eq_true] at hall
      obtain ⟨bad, hbad, hrefuse⟩ := hall
      have hrefused := refused_of_independent hplain hind hbad hrefuse
      exact .inr ⟨hrefused, calib_of_independent hplain hind hrefused⟩
  · rintro (haccept | ⟨hrefuse, hcalib⟩)
    · exact independent_of_accepted hplain haccept
    · exact independent_of_refused hplain hrefuse hcalib

/-- Brightness and colour in one message. -/
theorem independent_iff_uniform_pair :
    Independent ⟨fun _ => 0, []⟩ [⟨101, .value 80⟩, ⟨113, .value 3⟩] := by
  refine (independent_iff_uniform _ _ ⟨by decide, by decide, by decide⟩).mpr (.inl ?_)
  decide

/-- A system command in front of a brightness: the brightness is not applied. Behind it, it
    is applied and not reported. -/
theorem not_independent_sysCmd :
    (∃ h, devObjDpCb 3 ⟨fun _ => 0, []⟩ [⟨118, .value 1⟩, ⟨101, .value 80⟩] = some h ∧
      h.applied = [] ∧ h.device.props .brightness = 0) ∧
    (∃ h, devObjDpCb 3 ⟨fun _ => 0, []⟩ [⟨101, .value 80⟩, ⟨118, .value 1⟩] = some h ∧
      h.applied = [⟨101, .value 80⟩] ∧ h.reported = []) ∧
    ¬ Independent ⟨fun _ => 0, []⟩ [⟨118, .value 1⟩, ⟨101, .value 80⟩] := by
  refine ⟨⟨_, rfl, by decide, by decide⟩, ⟨_, rfl, by decide, by decide⟩, ?_⟩
  rintro ⟨h, hrun, happly, -⟩
  have heq := hrun 3 (by decide)
  cases heq
  exact absurd (happly ⟨101, .value 80⟩ (by decide) (by decide)) (by decide)

end

end Ivy.Spec
