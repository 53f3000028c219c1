import Mathlib.Logic.Function.Basic

/-!
# Data points from the cloud

A message carries data points, each with the number of a property and a value.
`dev_obj_dp_cb` hands them to `IOT::dp_handler` one by one and reports the whole message
back. `Prop::set` is a store with one value for each key; everything else that leaves
this part of the device is logged.
-/

namespace Ivy.Native

/-! ## Data points -/

/-- The members of `enum Dp` that `dp_handler` has a case for. -/
inductive Dp
  | brightness
  | hasPot
  | touchEnable
  | color
  | earSensitivity
  | potSensitivity
  | evolveStatus
  | sysCmd
  | plantType
  | plantAutoDetect
  | waterManualCalib
  | earEnable
  | useFahrenheit
  | enableNightSleep
  | enableSleep
  | nightSleepStart
  | nightSleepPeriod
  | autoBrightness
  | use12hMode
  | customAnimLastT
  | enableLocationWeather
  | longitude
  | latitude
  | language
  deriving DecidableEq, Repr

/-- The values of the enumeration. -/
def Dp.id : Dp → UInt8
  | brightness => 101
  | hasPot => 102
  | touchEnable => 110
  | color => 113
  | earSensitivity => 115
  | potSensitivity => 116
  | evolveStatus => 117
  | sysCmd => 118
  | plantType => 119
  | plantAutoDetect => 123
  | waterManualCalib => 124
  | earEnable => 125
  | useFahrenheit => 130
  | enableNightSleep => 131
  | enableSleep => 132
  | nightSleepStart => 133
  | nightSleepPeriod => 134
  | autoBrightness => 135
  | use12hMode => 136
  | customAnimLastT => 137
  | enableLocationWeather => 141
  | longitude => 142
  | latitude => 143
  | language => 144

/-- The cast of a `dpid`; `none` has no case in `dp_handler`. -/
def Dp.ofByte : UInt8 → Option Dp
  | 101 => some brightness
  | 102 => some hasPot
  | 110 => some touchEnable
  | 113 => some color
  | 115 => some earSensitivity
  | 116 => some potSensitivity
  | 117 => some evolveStatus
  | 118 => some sysCmd
  | 119 => some plantType
  | 123 => some plantAutoDetect
  | 124 => some waterManualCalib
  | 125 => some earEnable
  | 130 => some useFahrenheit
  | 131 => some enableNightSleep
  | 132 => some enableSleep
  | 133 => some nightSleepStart
  | 134 => some nightSleepPeriod
  | 135 => some autoBrightness
  | 136 => some use12hMode
  | 137 => some customAnimLastT
  | 141 => some enableLocationWeather
  | 142 => some longitude
  | 143 => some latitude
  | 144 => some language
  | _ => none

/-- The value of a data point, by its type; `dp_value` and `dp_bool` are both `int`. -/
inductive DpValue
  /-- `PROP_VALUE` -/
  | value (v : Int)
  /-- `PROP_BOOL` -/
  | bool (v : Int)
  /-- `PROP_STR`, `PROP_ENUM` and `PROP_BITMAP` -/
  | other
  deriving DecidableEq, Repr

/-- `TY_OBJ_DP_S` -/
structure DataPoint where
  dpid : UInt8
  value : DpValue
  deriving DecidableEq, Repr

/-! ## The device -/

/-- The keys of `Prop` that `dp_handler` reads or writes. -/
inductive PropKey
  | brightness
  | hasPot
  | manualHasPot
  | touchEnable
  | color
  | earSensitivity
  | potSensitivity
  | plantType
  | plantAutoDetect
  | waterManualCalib
  | earEnable
  | useFahrenheit
  | enableNightSleep
  | enableSleep
  | nightSleepStart
  | nightSleepPeriod
  | autoBrightness
  | use12hMode
  | customAnimLastT
  | enableLocationWeather
  | longitude
  | latitude
  | languageChanged
  deriving DecidableEq, Repr

/-- `Skin::TP_INDEX_FRONT`, `TP_INDEX_LEFT`, `TP_INDEX_RIGHT` -/
inductive TouchPad
  | front
  | left
  | right
  deriving DecidableEq, Repr

/-- The modes of `CustomAnimPlayer` that a command sets. -/
inductive AnimMode
  | single
  | rotate
  | random
  deriving DecidableEq, Repr

/-- The calls that leave this part of the device. -/
inductive Effect
  /-- `UI::show_temp_text(LANG(Lang::ui_manual_calib_remove_pot))` -/
  | showManualCalibRemovePot
  /-- `Sense::set_level_calibration(value, true)` -/
  | setLevelCalibration (value : Int)
  /-- `Lang::Language::check_change(lang, first)` -/
  | checkChange (lang : Int) (first : Bool)
  | resetWaterLevelCalib
  | calibrateWaterLevel
  /-- `Skin::calibrate_all` -/
  | calibrateAll (n : Nat)
  | checkEvolveUpdate
  | uiSetAction (apply : Bool)
  | resetSoilSensorCalibInfo
  /-- `dispatch_event(BUTTON_TAP)` -/
  | tap (pad : TouchPad)
  | uploadLog
  /-- `CustomAnimPlayer::play(keep)` -/
  | animPlay
  | animStop
  | animNext
  | animSetMode (mode : AnimMode)
  | restoreToFactory
  deriving DecidableEq, Repr

structure Device where
  props : PropKey → Int
  log : List Effect

/-- `Prop::set` -/
def Device.set (d : Device) (k : PropKey) (v : Int) : Device :=
  { d with props := Function.update d.props k v }

def Device.emit (d : Device) (e : Effect) : Device :=
  { d with log := d.log ++ [e] }

/-- `IOT::process_sys_cmd` -/
def processSysCmd (d : Device) : Int → Device
  | 5 => d.emit .resetWaterLevelCalib
  | 6 => d.emit .calibrateWaterLevel
  | 7 => d.emit (.calibrateAll 100)
  | 8 => d.emit .checkEvolveUpdate
  | 9 => d.emit (.uiSetAction true)
  | 10 => d.emit (.uiSetAction false)
  | 12 => d.emit .resetSoilSensorCalibInfo
  | 13 => d.emit (.tap .front)
  | 14 => d.emit (.tap .left)
  | 15 => d.emit (.tap .right)
  | 16 => d.emit .uploadLog
  | 17 => d.emit .animPlay
  | 18 => d.emit .animStop
  | 19 => d.emit .animNext
  | 20 => d.emit (.animSetMode .single)
  | 21 => d.emit (.animSetMode .rotate)
  | 22 => d.emit (.animSetMode .random)
  | 99 => d.emit .restoreToFactory
  -- also `SYS_CMD_SYNC_BT`, the two pot calibrations and `SYS_CMD_RE_TUTORIAL`
  | _ => d

/-- `IOT::dp_handler` -/
def dpHandler (d : Device) (dp : Option Dp) (value : Int) : Bool × Device :=
  match dp with
  | some .brightness => (true, d.set .brightness value)
  -- written to a key of its own
  | some .hasPot => (true, d.set .manualHasPot value)
  | some .touchEnable => (true, d.set .touchEnable value)
  | some .earSensitivity => (true, d.set .earSensitivity value)
  | some .potSensitivity => (true, d.set .potSensitivity value)
  -- these two are refused, which ends the message
  | some .evolveStatus => (false, d)
  | some .sysCmd => (false, processSysCmd d value)
  | some .plantAutoDetect => (true, d.set .plantAutoDetect value)
  | some .waterManualCalib =>
    if value ≠ 0 ∧ d.props .hasPot ≠ 0 then
      -- the pot is in
      (false, (d.set .waterManualCalib 0).emit .showManualCalibRemovePot)
    else (true, d.emit (.setLevelCalibration value))
  | some .earEnable => (true, d.set .earEnable value)
  | some .plantType => (true, d.set .plantType value)
  | some .enableSleep => (true, d.set .enableSleep value)
  | some .autoBrightness => (true, d.set .autoBrightness value)
  | some .enableNightSleep => (true, d.set .enableNightSleep value)
  | some .useFahrenheit => (true, d.set .useFahrenheit value)
  | some .use12hMode => (true, d.set .use12hMode value)
  | some .nightSleepStart => (true, d.set .nightSleepStart value)
  | some .nightSleepPeriod => (true, d.set .nightSleepPeriod value)
  | some .customAnimLastT => (true, d.set .customAnimLastT value)
  | some .enableLocationWeather => (true, d.set .enableLocationWeather value)
  | some .longitude => (true, d.set .longitude value)
  | some .latitude => (true, d.set .latitude value)
  | some .language =>
    -- the first change of the language is remembered
    if d.props .languageChanged = 0 then
      (true, (d.set .languageChanged 1).emit (.checkChange value true))
    else (true, d.emit (.checkChange value false))
  | some .color => (true, d.set .color value)
  | none => (false, d)

/-! ## Messages -/

/-- What has become of a message. -/
structure Handled where
  device : Device
  /-- the data points for which `dp_handler` has returned true, in order -/
  applied : List DataPoint
  /-- the data points passed to `dev_report_dp_json_async` -/
  reported : List DataPoint

/-- `dev_obj_dp_cb` on a message of `dps_cnt` data points. The loop counter is a byte;
    `none` means that the loop has not ended after `fuel` rounds. -/
def devObjDpCb (fuel : Nat) (d : Device) (dps : List DataPoint) : Option Handled :=
  loop fuel 0 ⟨d, [], []⟩
where
  loop : Nat → UInt8 → Handled → Option Handled
    | 0, _, _ => none
    | fuel + 1, i, h =>
      match dps[i.toNat]? with
      -- all data points are reported, those of other types as well
      | none => some { h with reported := dps }
      | some dp =>
        match dp.value with
        | .value v | .bool v =>
          match dpHandler h.device (Dp.ofByte dp.dpid) v with
          | (true, device) =>
            loop fuel (i + 1) { h with device := device, applied := h.applied ++ [dp] }
          -- a refusal returns at once, without a report
          | (false, device) => some { h with device := device }
        | .other => loop fuel (i + 1) h

/-- The indices for which `dev_obj_dp_cb` calls `dp_handler` in its first `fuel` rounds. -/
def devObjDpCbCalls (fuel : Nat) (d : Device) (dps : List DataPoint) : List UInt8 :=
  loop fuel 0 d
where
  loop : Nat → UInt8 → Device → List UInt8
    | 0, _, _ => []
    | fuel + 1, i, d =>
      match dps[i.toNat]? with
      | none => []
      | some dp =>
        match dp.value with
        | .value v | .bool v =>
          match dpHandler d (Dp.ofByte dp.dpid) v with
          | (true, device) => i :: loop fuel (i + 1) device
          | (false, _) => [i]
        | .other => loop fuel (i + 1) d

end Ivy.Native
