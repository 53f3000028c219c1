import Ivy.ForStd.Transition
import Ivy.Native.TklWifi

/-!
# The modes of the radio

Two modes of the radio are written from several places. The mode of its interfaces is set by
`tkl_wifi_set_work_mode`, which remembers it, and by three other calls, which do not; what is
remembered is then stale. Promiscuous mode is switched on and off by the sniffer and by the
callback for management packets, neither of which looks after the other.
-/

namespace Ivy.Spec

open Ivy.Native Ivy.Lts

/-! ## The work mode -/

inductive ModeCall
  | setWorkMode (mode : WorkMode) (setMode : Bool)
  | stationConnect (handlers setMode setConfig start : Bool)
  | startAp (handlers setMode setConfig start setIpInfo : Bool)
  | stopAp
  | setMac (wf : WfIf) (stored setMode baseMac setMac : Bool)
  | stationDisconnect
  deriving DecidableEq, Repr

/-- The value returned, `none` after a failed assertion, and the new state. -/
def modeCall (m : WifiMode) : ModeCall → Option OperateRet × WifiMode
  | .setWorkMode mode setMode =>
    match m.setWorkMode mode setMode with
    | none => (none, m)
    | some (ret, m) => (some ret, m)
  | .stationConnect handlers setMode setConfig start =>
    ((m.stationConnect handlers setMode setConfig start).1,
      (m.stationConnect handlers setMode setConfig start).2)
  | .startAp handlers setMode setConfig start setIpInfo =>
    ((m.startAp handlers setMode setConfig start setIpInfo).1,
      (m.startAp handlers setMode setConfig start setIpInfo).2)
  | .stopAp => (m.stopAp.1, m.stopAp.2)
  | .setMac wf stored setMode baseMac setMac =>
    ((m.setMac wf stored setMode baseMac setMac).1, (m.setMac wf stored setMode baseMac setMac).2)
  | .stationDisconnect => (m.stationDisconnect.1, m.stationDisconnect.2)

def modeStep (m : WifiMode) (c : ModeCall) : WifiMode := (modeCall m c).2

/-- The modes for which `tkl_wifi_set_work_mode` sets the mode of the radio. -/
def WorkMode.isRadio : WorkMode → Bool
  | .station | .softap | .stationap | .powerdown => true
  | .sniffer | .unknown => false

/-- The mode reported corresponds to the one last set. -/
def Reports (m : WifiMode) : Prop :=
  ∀ getMode mode espMode, m.getWorkMode getMode = (.ok, some mode) →
    m.radio = some espMode → mode.esp = some espMode

/-- If the call sets the work mode, the radio is in the corresponding mode, and after every
    call the mode reported corresponds to that of the radio. -/
def ModesAgree (m : WifiMode) (c : ModeCall) : Prop :=
  (∀ mode setMode, c = .setWorkMode mode setMode → WorkMode.isRadio mode = true →
    (modeCall m c).1 = some .ok → (modeStep m c).radio = mode.esp) ∧
  Reports (modeStep m c)

/-- The mode that the call gives the radio without remembering it. -/
def ModeCall.direct : ModeCall → Option EspMode
  | .stationConnect true true _ _ => some .sta
  | .startAp true true _ _ _ => some .ap
  | .setMac wf true true _ _ => some (if wf = .ap then .ap else .sta)
  | _ => none

/-- A mode set directly is the one remembered, and the sniffer is chosen only while the
    radio is in the mode of the sniffer or in none yet. -/
def Remembered (m : WifiMode) (c : ModeCall) : Prop :=
  (∀ espMode, c.direct = some espMode → m.workMode.esp = some espMode) ∧
  (∀ setMode espMode, c = .setWorkMode .sniffer setMode → m.radio = some espMode →
    espMode = .apsta)

/-- What a call does. -/
inductive ModeStep (m : WifiMode) : ModeCall → Option OperateRet → WifiMode → Prop
  | kept (c : ModeCall) (ret : Option OperateRet) (hdirect : c.direct = none)
      (hset : ∀ mode setMode, c = .setWorkMode mode setMode → mode = m.workMode ∨
        ret ≠ some .ok ∧ mode ≠ .sniffer) : ModeStep m c ret m
  | set (mode : WorkMode) (espMode : EspMode) (hmode : mode ≠ .sniffer)
      (hesp : mode.esp = some espMode) :
      ModeStep m (.setWorkMode mode true) (some .ok) ⟨mode, some espMode⟩
  | sniffer (setMode : Bool) :
      ModeStep m (.setWorkMode .sniffer setMode) (some .ok) { m with workMode := .sniffer }
  | direct (c : ModeCall) (ret : Option OperateRet) (espMode : EspMode)
      (hdirect : c.direct = some espMode) : ModeStep m c ret { m with radio := some espMode }

section

variable (m : WifiMode)

/-- `tkl_wifi_set_work_mode` makes one of the steps. -/
theorem setWorkMode_step (mode : WorkMode) (setMode : Bool) :
    ModeStep m (.setWorkMode mode setMode) (modeCall m (.setWorkMode mode setMode)).1
      (modeCall m (.setWorkMode mode setMode)).2 := by
  by_cases hsame : mode = m.workMode
  · -- nothing is set
    have hstep : (modeCall m (.setWorkMode mode setMode)).2 = m := by
      by_cases hunknown : mode = .unknown
      · simp [modeCall, WifiMode.setWorkMode, hunknown]
      · simp [modeCall, WifiMode.setWorkMode, hunknown, ← hsame]
    rw [hstep]
    exact .kept _ _ rfl fun _ _ heq => .inl (by cases heq; exact hsame)
  · cases mode with
    -- an assertion fails
    | unknown => exact .kept _ _ rfl fun _ _ heq => .inr (by cases heq; exact ⟨nofun, nofun⟩)
    | sniffer =>
      -- the sniffer sets no mode of the radio
      simp only [modeCall, WifiMode.setWorkMode, hsame]
      exact .sniffer setMode
    | powerdown | station | softap | stationap =>
      simp only [modeCall, WifiMode.setWorkMode, hsame]
      cases setMode with
      | true => exact .set _ _ nofun rfl
      | false => exact .kept _ _ rfl fun _ _ heq => .inr (by cases heq; exact ⟨nofun, nofun⟩)

/-- Every call makes one of the steps. -/
theorem modeCall_step (c : ModeCall) : ModeStep m c (modeCall m c).1 (modeCall m c).2 := by
  cases c with
  | setWorkMode mode setMode => exact setWorkMode_step m mode setMode
  | stopAp | stationDisconnect => exact .kept _ _ rfl nofun
  | stationConnect handlers setMode setConfig start =>
    cases handlers <;> cases setMode
    -- set before the configuration and the start, whatever they return
    case true.true => cases setConfig <;> cases start <;> exact .direct _ _ _ rfl
    all_goals exact .kept _ _ rfl nofun
  -- the mode is set before anything else can fail
  | startAp handlers setMode setConfig start setIpInfo =>
    cases handlers <;> cases setMode
    case true.true =>
      cases setConfig <;> cases start <;> cases setIpInfo <;> exact .direct _ _ _ rfl
    all_goals exact .kept _ _ rfl nofun
  | setMac wf stored setMode baseMac setMac =>
    cases stored <;> cases setMode
    case true.true => cases baseMac <;> cases setMac <;> exact .direct _ _ _ rfl
    all_goals exact .kept _ _ rfl nofun

end

/-- What is remembered is the mode of the radio. -/
structure ModesInStep (m : WifiMode) : Prop where
  reports : Reports m
  radio : WorkMode.isRadio m.workMode = true → m.radio = m.workMode.esp

/-- The mode that is reported is the radio's. -/
theorem reports_iff {m : WifiMode} :
    Reports m ↔ ∀ espMode, m.radio = some espMode → m.workMode.esp = some espMode := by
  constructor
  · -- `tkl_wifi_get_work_mode` reports what is remembered, not what it has read
    exact fun h espMode hradio => h true m.workMode espMode rfl hradio
  · intro h getMode mode espMode hget hradio
    cases getMode with
    | false => exact nomatch hget
    | true =>
      cases hget
      exact h espMode hradio

/-- The radio is off in the beginning. -/
theorem modesInStep_init : ModesInStep .init where
  reports := reports_iff.mpr nofun
  radio := nofun

section

variable {m : WifiMode} {c : ModeCall}

/-- Only the other calls set the radio's mode themselves. -/
theorem not_direct_setWorkMode {mode : WorkMode} {setMode : Bool} {espMode : EspMode}
    (hdirect : c.direct = some espMode) : c ≠ .setWorkMode mode setMode := by
  rintro rfl
  exact nomatch hdirect

/-- The modes stay the same exactly if no call sets the radio behind the variable's back. -/
theorem modesAgree_iff_remembered (h : ModesInStep m) : ModesAgree m c ↔ Remembered m c := by
  have hstep := modeCall_step m c
  unfold ModesAgree modeStep Remembered
  -- only the kind of step counts from here on
  generalize (modeCall m c).1 = ret, (modeCall m c).2 = m' at hstep
  cases hstep with
  | kept _ _ hdirect hset =>
    refine iff_of_true ⟨fun mode setMode hc hradio hret => ?_, h.reports⟩ ⟨fun espMode hd => ?_,
      fun setMode espMode hc hradio => ?_⟩
    · rcases hset mode setMode hc with rfl | ⟨hne, -⟩
      · exact h.radio hradio
      · exact absurd hret hne
    · exact nomatch hdirect.symm.trans hd
    · -- the sniffer was chosen before
      rcases hset .sniffer setMode hc with hsame | ⟨-, hne⟩
      · have hesp := reports_iff.mp h.reports espMode hradio
        rw [← hsame] at hesp
        exact (Option.some.inj hesp).symm
      · exact absurd rfl hne
  -- both are set
  | set mode espMode hmode hesp =>
    refine iff_of_true ⟨fun mode' setMode hc _ _ => ?_, reports_iff.mpr fun espMode' hradio => ?_⟩
      ⟨nofun, fun setMode espMode' hc _ => ?_⟩
    · cases hc
      exact hesp.symm
    · cases hradio
      exact hesp
    · cases hc
      exact absurd rfl hmode
  -- the sniffer's mode is remembered, and the radio is left as it was
  | sniffer setMode =>
    rw [reports_iff]
    constructor
    · rintro ⟨-, hreports⟩
      refine ⟨nofun, fun _ espMode _ hradio => ?_⟩
      exact (Option.some.inj (hreports espMode hradio)).symm
    · rintro ⟨-, hsniffer⟩
      refine ⟨fun mode _ hc hradio _ => ?_, fun espMode hradio => ?_⟩
      · cases hc
        exact nomatch hradio
      · rw [hsniffer setMode espMode rfl hradio]
        rfl
  | direct _ _ espMode hdirect =>
    rw [reports_iff]
    constructor
    · rintro ⟨-, hreports⟩
      refine ⟨fun espMode' hd => ?_, fun _ _ hc => absurd hc (not_direct_setWorkMode hdirect)⟩
      cases hdirect.symm.trans hd
      exact hreports espMode rfl
    · rintro ⟨hremembered, -⟩
      refine ⟨fun _ _ hc => absurd hc (not_direct_setWorkMode hdirect), fun espMode' hradio => ?_⟩
      cases hradio
      exact hremembered espMode hdirect

/-- Such calls keep the modes in step. -/
theorem Remembered.modesInStep (hc : Remembered m c) (h : ModesInStep m) :
    ModesInStep (modeStep m c) := by
  have hreports := ((modesAgree_iff_remembered h).mpr hc).2
  have hstep := modeCall_step m c
  refine ⟨hreports, ?_⟩
  unfold modeStep at hreports ⊢
  generalize (modeCall m c).1 = ret, (modeCall m c).2 = m' at hstep hreports ⊢
  cases hstep with
  | kept => exact h.radio
  | set mode espMode hmode hesp => exact fun _ => hesp.symm
  -- the sniffer is not a mode of the radio, so nothing is claimed of it
  | sniffer setMode => exact nofun
  | direct _ _ espMode hdirect =>
    exact fun _ => (reports_iff.mp hreports espMode rfl).symm

end

/-- For every sequence of calls and every outcome of the calls of ESP-IDF: the radio is in
    the mode that was set and reported, exactly if a mode set directly is always the one
    remembered and the sniffer is chosen only while the radio is in its mode or in none. -/
theorem work_mode_agrees_iff (calls : List ModeCall) :
    Always modeStep ModesAgree .init calls ↔ Always modeStep Remembered .init calls :=
  always_congr (I := ModesInStep) (fun _ _ h => modesAgree_iff_remembered h)
    (fun _ _ h hc => hc.modesInStep h) modesInStep_init

/-- The access point is chosen, the station connects, and the access point is chosen again:
    the radio stays in the mode of the station. -/
theorem not_work_mode_agrees :
    (∃ m, ([.setWorkMode .softap true, .stationConnect true true true true] :
        List ModeCall).foldl modeStep .init = m ∧
      modeCall m (.setWorkMode .softap true) = (some .ok, ⟨.softap, some .sta⟩) ∧
      m.getWorkMode true = (.ok, some .softap)) ∧
    ¬ Always modeStep ModesAgree .init
      [.setWorkMode .softap true, .stationConnect true true true true] := by
  refine ⟨⟨_, rfl, by decide, by decide⟩, fun h => ?_⟩
  exact absurd (h.2.1.2 true .softap .sta rfl rfl) (by decide)

/-! ## Promiscuous mode -/

section

variable {κ μ : Type}

inductive SnifferCall (κ μ : Type)
  | setSniffer (en : Bool) (cb : Option κ)
  | registerRecvMgntCallback (enable : Bool) (recvCb : Option μ)
  deriving DecidableEq, Repr

/-- The module with what its users have asked for. -/
structure SnifferHistory (κ μ : Type) where
  sniffer : WifiSniffer κ μ
  /-- the callback set last, while the sniffer is enabled -/
  enabled : Option κ
  /-- a callback for management packets is registered -/
  registered : Bool
  deriving DecidableEq, Repr

def SnifferHistory.init : SnifferHistory κ μ := ⟨.init, none, false⟩

def SnifferHistory.step (h : SnifferHistory κ μ) : SnifferCall κ μ → SnifferHistory κ μ
  | .setSniffer en cb =>
    { h with
      sniffer := (h.sniffer.setSniffer en cb).2
      -- a null callback is refused
      enabled := if en then cb.or h.enabled else none }
  | .registerRecvMgntCallback enable recvCb =>
    { h with
      sniffer := (h.sniffer.registerRecvMgntCallback enable recvCb).2
      registered := enable && recvCb.isSome }

/-- Promiscuous mode is on exactly while it is asked for, and a packet of one of the two
    types reaches the callback of the sniffer. -/
structure Serves (h : SnifferHistory κ μ) : Prop where
  promiscuous : h.sniffer.promiscuous = (h.enabled.isSome || h.registered)
  received : ∀ cb pkt, h.enabled = some cb → pkt.type = .data ∨ pkt.type = .mgmt →
    h.sniffer.receive pkt = some (cb, pkt.payload, pkt.sigLen, pkt.rssi)

/-- The call leaves both users served. -/
def ServesBoth (h : SnifferHistory κ μ) (c : SnifferCall κ μ) : Prop := Serves (h.step c)

/-- The sniffer is disabled only while no callback for management packets is registered, such
    a callback is registered as null only while the sniffer is enabled, and is taken back
    only when there is nothing to switch off. -/
def Undisputed (h : SnifferHistory κ μ) : SnifferCall κ μ → Prop
  | .setSniffer en _ => en = false → h.registered = false
  | .registerRecvMgntCallback true recvCb => recvCb.isSome = true ∨ h.enabled.isSome = true
  | .registerRecvMgntCallback false _ => h.enabled = none ∧ h.registered = false

/-- What the module remembers is what was asked for, and the radio is set up for it. -/
structure SetUp (h : SnifferHistory κ μ) : Prop where
  snifferCb : h.sniffer.snifferCb = h.enabled
  promiscuous : h.sniffer.promiscuous = (h.enabled.isSome || h.registered)
  radio : h.sniffer.promiscuous = true →
    h.sniffer.localCb = true ∧ h.sniffer.filter = [.data, .mgmt]

/-- No callback is registered in the beginning. -/
theorem setUp_init : SetUp (.init : SnifferHistory κ μ) := ⟨rfl, rfl, nofun⟩

variable {h : SnifferHistory κ μ} {c : SnifferCall κ μ}

/-- With one user of the radio everyone is served. -/
theorem SetUp.serves (hs : SetUp h) : Serves h where
  promiscuous := hs.promiscuous
  received cb pkt henabled htype := by
    have hon : h.sniffer.promiscuous = true := by
      rw [hs.promiscuous, henabled]
      rfl
    obtain ⟨hlocal, hfilter⟩ := hs.radio hon
    -- the filter lets both types through
    rcases htype with htype | htype <;>
      simp [WifiSniffer.receive, WifiSniffer.snifferLocalCb, hon, hlocal, hfilter, htype,
        hs.snifferCb, henabled]

/-- Calls that do not dispute the radio keep it so. -/
theorem Undisputed.setUp (hc : Undisputed h c) (hs : SetUp h) : SetUp (h.step c) := by
  cases c with
  | setSniffer en cb =>
    cases en with
    | false =>
      -- switched off for both
      have hnone := hc rfl
      refine ⟨rfl, ?_, nofun⟩
      simp [SnifferHistory.step, WifiSniffer.setSniffer, WifiSniffer.stop, hnone]
    | true =>
      cases cb with
      | none => exact hs
      | some cb => exact ⟨rfl, rfl, fun _ => ⟨rfl, rfl⟩⟩
  | registerRecvMgntCallback enable recvCb =>
    cases enable with
    | true =>
      refine ⟨hs.snifferCb, ?_, fun _ => ⟨rfl, rfl⟩⟩
      show true = (h.enabled.isSome || recvCb.isSome)
      -- promiscuous mode is on now, which the callback or the sniffer needs
      rcases hc with hcb | hen
      · rw [hcb, Bool.or_true]
      · rw [hen, Bool.true_or]
    | false =>
      obtain ⟨hen, hreg⟩ := hc
      -- promiscuous mode was off, and nothing changes
      have hoff : h.sniffer.promiscuous = false := by
        rw [hs.promiscuous, hen, hreg]
        rfl
      have hcb : h.sniffer.snifferCb = none := hs.snifferCb.trans hen
      constructor
      · simp [SnifferHistory.step, WifiSniffer.registerRecvMgntCallback, hcb, hen]
      · simp [SnifferHistory.step, WifiSniffer.registerRecvMgntCallback, hcb, hen, hoff]
      · simp [SnifferHistory.step, WifiSniffer.registerRecvMgntCallback, hcb, hoff]

/-- Only such calls leave both users served. -/
theorem servesBoth_iff_undisputed (hs : SetUp h) : ServesBoth h c ↔ Undisputed h c := by
  constructor
  · intro hserves
    have hon := hserves.promiscuous
    cases c with
    | setSniffer en cb =>
      rintro rfl
      -- off for both, so nothing may be registered
      exact hon.symm
    | registerRecvMgntCallback enable recvCb =>
      cases enable with
      | true =>
        -- it is switched on also for a null callback
        have hasked : (h.enabled.isSome || recvCb.isSome) = true := hon.symm
        exact (Bool.or_eq_true_iff.mp hasked).symm
      | false =>
        cases hen : h.enabled with
        | some cb =>
          -- promiscuous mode is switched off under the sniffer
          have hcb : h.sniffer.snifferCb = some cb := hs.snifferCb.trans hen
          simp [SnifferHistory.step, WifiSniffer.registerRecvMgntCallback, WifiSniffer.stop, hcb,
            hen] at hon
        | none =>
          have hcb : h.sniffer.snifferCb = none := hs.snifferCb.trans hen
          have hoff : h.sniffer.promiscuous = false := by
            simpa [SnifferHistory.step, WifiSniffer.registerRecvMgntCallback, hcb, hen] using hon
          rw [hs.promiscuous, hen] at hoff
          exact ⟨hen, hoff⟩
  · intro hc
    exact (hc.setUp hs).serves

/-- For every sequence of calls, with callbacks of any kind: promiscuous mode is on exactly
    while one of its users needs it, and the callback of the sniffer gets every packet,
    exactly if no call takes the mode away from the other user or leaves it on for none. -/
theorem promiscuous_serves_iff (calls : List (SnifferCall κ μ)) :
    Always SnifferHistory.step ServesBoth .init calls ↔
      Always SnifferHistory.step Undisputed .init calls :=
  always_congr (I := SetUp) (fun _ _ hs => servesBoth_iff_undisputed hs)
    (fun _ _ hs hc => hc.setUp hs) setUp_init

end

/-- Taking back a callback for management packets switches promiscuous mode off under the
    sniffer; and without a sniffer it leaves it on for nobody. -/
theorem not_promiscuous_serves :
    (∃ h : SnifferHistory Unit Unit, [.setSniffer true (some ()),
          .registerRecvMgntCallback true (some ()), .registerRecvMgntCallback false none].foldl
        SnifferHistory.step .init = h ∧
      h.enabled = some () ∧ h.sniffer.promiscuous = false) ∧
    (∃ h : SnifferHistory Unit Unit, [.registerRecvMgntCallback true (some ()),
          .registerRecvMgntCallback false none].foldl SnifferHistory.step .init = h ∧
      h.enabled = none ∧ h.registered = false ∧ h.sniffer.promiscuous = true) ∧
    ¬ Always SnifferHistory.step ServesBoth (.init : SnifferHistory Unit Unit)
      [.registerRecvMgntCallback true (some ()), .registerRecvMgntCallback false none] := by
  refine ⟨⟨_, rfl, rfl, rfl⟩, ⟨_, rfl, rfl, rfl, rfl⟩, fun h => ?_⟩
  exact nomatch h.2.1.promiscuous

end Ivy.Spec
