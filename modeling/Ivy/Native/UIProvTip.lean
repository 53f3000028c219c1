import Ivy.Native.NetInterface

/-!
# The provisioning screen

`UIProvTip` is ticked by a timer and leads the user through provisioning: a tick looks at the
status that `NetInterface` keeps, reports an error or moves on to the next step. A call of
`next` returns what it has read and what it has done. The positions and the animations of the
labels are left out.
-/

namespace Ivy.Native

/-- The texts of `Lang` that the screen shows. -/
inductive ProvKey
  | uiTuOpenTuyaApp
  | uiTuTuyaAddDevice
  | uiProvPopup
  | uiProvConfiguring
  | uiProvAppSuccess
  | uiProvConnectingRouter
  | uiProvRouterSuccess
  | uiProvActivating
  | uiProvActSuccess
  | uiProvFail
  | uiTuyaTipFailReset
  | uiTuyaTipReasonPwdError
  | uiTuyaTipReasonApNotFound
  | uiTuyaTipReasonWeek
  deriving DecidableEq, Repr

inductive Palette
  | failure
  | notice
  deriving DecidableEq, Repr

/-- The texts of the language in use, and how a text is coloured. -/
structure ProvTexts where
  /-- `LANG(key)` -/
  lang : ProvKey → String
  /-- `get_colored_str` -/
  coloredStr : String → Palette → String

/-- What a call of `next` reads and does. -/
inductive TipAction
  /-- `get_prov_status()` has returned this. -/
  | provStatus (status : ProvStatus)
  | topText (text : String)
  | titleText (text : String)
  | subText (text : String)
  | bottomText (text : String)
  /-- `lv_timer_set_period(m_timer, period)` -/
  | timerPeriod (period : Nat)
  | bindAsset (name : String)
  | softReboot
  | unlock
  | bootedCb
  | bootOver
  | emoYawn
  | routeToDefault
  deriving DecidableEq, Repr

/-- What the calls that `next` makes return. No path through `next` reads the clock twice. -/
structure ProvTick where
  /-- `millis()` -/
  now : UInt32
  /-- The status when `check_error` reads it. -/
  checked : ProvStatus
  /-- The status when `reach_status` reads it. -/
  reached : ProvStatus
  tuExists : Bool
  tutorialComplete : Bool
  hasPot : Bool
  deriving DecidableEq, Repr

/-- `PWD_ERROR_DELAY` -/
def pwdErrorDelay : UInt32 := 60 * 1000

/-- `AP_NOT_FOUND_DELAY` -/
def apNotFoundDelay : UInt32 := 30 * 1000

structure UIProvTip where
  currentStep : Nat
  nextStatusT : UInt32
  shouldShowProcessing : Bool
  restartT : UInt32
  currentErr : Nat
  shouldRestart : Bool
  deriving DecidableEq, Repr

namespace UIProvTip

def init : UIProvTip where
  currentStep := 0
  nextStatusT := 0
  shouldShowProcessing := false
  restartT := 0
  currentErr := 0
  shouldRestart := false

/-- `UIProvTip::set_restart` -/
def setRestart (u : UIProvTip) (shouldRestart : Bool) (timeout now : UInt32) : UIProvTip :=
  { u with restartT := now + timeout, shouldRestart := shouldRestart }

/-- `UIProvTip::set_next_status_timeout` -/
def setNextStatusTimeout (u : UIProvTip) (timeout now : UInt32) : UIProvTip :=
  { u with nextStatusT := now + timeout, shouldShowProcessing := true }

/-- `UIProvTip::reach_status` -/
def reachStatus (u : UIProvTip) (t : ProvTick) (status : ProvStatus) (processingText : String) :
    Bool × UIProvTip × List TipAction :=
  if t.reached.reaches status then (true, u, [.provStatus t.reached])
  -- the text is shown once, some time after the step was reached
  else if u.shouldShowProcessing ∧ processingText ≠ "" ∧ t.now > u.nextStatusT then
    (false, { u with shouldShowProcessing := false },
      [.provStatus t.reached, .subText processingText])
  else (false, u, [.provStatus t.reached])

section

variable (x : ProvTexts)

/-- The `switch` of `check_error`. -/
def errorSwitch (u : UIProvTip) (status : ProvStatus) (now : UInt32) :
    UIProvTip × List TipAction :=
  let failure (key : ProvKey) := TipAction.subText (x.coloredStr (x.lang key) .failure)
  match status with
  | .wifiConnFail => (u, [failure .uiTuyaTipFailReset])
  | .pwdError =>
    (u.setRestart true pwdErrorDelay now,
      [failure .uiTuyaTipReasonPwdError, .bottomText (x.lang .uiProvFail)])
  | .apNotFound =>
    (u.setRestart true apNotFoundDelay now,
      [failure .uiTuyaTipReasonApNotFound, .bottomText (x.lang .uiProvFail)])
  | .rssiLow => (u, [failure .uiTuyaTipReasonWeek])
  | _ => (u, [])

/-- `UIProvTip::check_error` -/
def checkError (u : UIProvTip) (t : ProvTick) : UIProvTip × List TipAction :=
  let status := t.checked
  if status.toNat > ProvStatus.errStart.toNat then
    -- an error is shown once
    if u.currentErr ≠ status.toNat then
      let (u, shown) := u.errorSwitch x status t.now
      ({ u with currentErr := status.toNat }, .provStatus status :: shown)
    else (u, [.provStatus status])
  -- `prov_err_start` itself is no error
  else ({ u with currentErr := 0 }, [.provStatus status])

/-- The `switch` over `m_current_step`: whether it is left with `break`, so that the step is
    counted up, or with `return`. -/
def stepSwitch (u : UIProvTip) (t : ProvTick) : Bool × UIProvTip × List TipAction :=
  match u.currentStep with
  | 0 =>
    let notice (key : ProvKey) := x.coloredStr (x.lang key) .notice
    (true, u,
      [.timerPeriod 100, .topText (notice .uiTuOpenTuyaApp), .subText (notice .uiTuTuyaAddDevice),
        .bindAsset (if t.tuExists then "tu/tu_tuya_1" else "provisioning"),
        .bottomText (x.lang .uiProvPopup)])
  | 1 =>
    match u.reachStatus t .bleConnected "" with
    | (false, u, read) => (false, u, read)
    | (true, u, read) =>
      (true, u.setNextStatusTimeout 1500 t.now,
        read ++ [.bottomText "", .topText "", .titleText (x.lang .uiProvConfiguring),
          .subText (x.lang .uiProvAppSuccess)])
  | 2 =>
    match u.reachStatus t .wifiConnected (x.lang .uiProvConnectingRouter) with
    | (false, u, read) => (false, u, read)
    | (true, u, read) =>
      (true, u.setNextStatusTimeout 1500 t.now, read ++ [.subText (x.lang .uiProvRouterSuccess)])
  | 3 =>
    match u.reachStatus t .activated (x.lang .uiProvActivating) with
    | (false, u, read) => (false, u, read)
    | (true, u, read) =>
      (true, u, read ++ [.subText (x.lang .uiProvActSuccess), .timerPeriod 5000])
  | 4 =>
    let leave : List TipAction :=
      if t.tutorialComplete then
        [.unlock, .bootedCb, .bootOver, if t.hasPot then .emoYawn else .routeToDefault]
      else []
    -- the last step does not count up
    (false, u, leave)
  | _ => (true, u, [])

/-- `UIProvTip::next` -/
def next (u : UIProvTip) (t : ProvTick) : UIProvTip × List TipAction :=
  -- waiting for the restart nothing else is done
  if u.shouldRestart then (u, if t.now > u.restartT then [.softReboot] else [])
  else
    let (u, checked) := u.checkError x t
    if u.currentErr ≠ 0 then (u, checked)
    else
      match u.stepSwitch x t with
      | (false, u, done) => (u, checked ++ done)
      | (true, u, done) => ({ u with currentStep := u.currentStep + 1 }, checked ++ done)

end

end UIProvTip

end Ivy.Native
