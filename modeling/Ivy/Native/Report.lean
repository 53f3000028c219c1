import Ivy.Native.DataPoint
import Ivy.Native.NetInterface

/-!
# Reports to the cloud

`IOT` sends data points to the cloud while `IOT::connected()` holds. A report tells its
caller whether it was handed to the SDK; the SDK's own result is not looked at, but for
the condition `Sys::DATA_REPORTED`.
-/

namespace Ivy.Native

/-! ## The table of the properties -/

/-- The members of `Prop::prop_t`: those of `tuya_dp_map`, and the others. -/
inductive ReportKey
  | brightness
  | hasPot
  | ambientLight
  | temperature
  | humidity
  | charging
  | waterLevel
  | touchEnable
  | earSensitivity
  | potSensitivity
  | evolveStatus
  | batteryPercent
  | soilMoisture
  | plantAutoDetect
  | waterManualCalib
  | earEnable
  | plantType
  | color
  | pomodoro
  | wateringStatus
  | useFahrenheit
  | enableNightSleep
  | enableSleep
  | nightSleepStart
  | nightSleepPeriod
  | autoBrightness
  | use12hMode
  | customAnimLastT
  | lightStatus
  | temperatureStatus
  | humidityStatus
  | soilStatus
  | enableLocationWeather
  | longitude
  | latitude
  | language
  | ambientLightHistory
  | batteryPercentHistory
  | soilMoistureHistory
  | humidityHistory
  | temperatureHistory
  | waterLevelHistory
  | tutorialComplete
  | unmapped (prop : Nat)
  deriving DecidableEq, Repr

/-- The types of the table: `PROP_BOOL` and `PROP_VALUE`. -/
inductive DpKind
  | bool
  | value
  deriving DecidableEq, Repr

/-- `dp_type_t` -/
structure DpType where
  dp : UInt8
  type : DpKind
  factor : UInt8
  deriving DecidableEq, Repr

/-- `IOT::init_dp_data`. The order of an `unordered_map` is left open by the library; here
    it is that of the source. -/
def tuyaDpMap : List (ReportKey × DpType) :=
  [ (.brightness, ⟨101, .value, 1⟩),
    (.hasPot, ⟨102, .bool, 1⟩),
    (.ambientLight, ⟨103, .value, 1⟩),
    (.temperature, ⟨104, .value, 10⟩),
    (.humidity, ⟨105, .value, 1⟩),
    (.charging, ⟨109, .bool, 1⟩),
    (.waterLevel, ⟨108, .value, 1⟩),
    (.touchEnable, ⟨110, .bool, 1⟩),
    (.earSensitivity, ⟨115, .value, 1⟩),
    (.potSensitivity, ⟨116, .value, 1⟩),
    (.evolveStatus, ⟨117, .value, 1⟩),
    (.batteryPercent, ⟨121, .value, 1⟩),
    (.soilMoisture, ⟨122, .value, 1⟩),
    (.plantAutoDetect, ⟨123, .bool, 1⟩),
    (.waterManualCalib, ⟨124, .bool, 1⟩),
    (.earEnable, ⟨125, .bool, 1⟩),
    (.plantType, ⟨119, .value, 1⟩),
    (.color, ⟨113, .value, 1⟩),
    (.pomodoro, ⟨126, .value, 1⟩),
    (.wateringStatus, ⟨106, .value, 1⟩),
    (.useFahrenheit, ⟨130, .bool, 1⟩),
    (.enableNightSleep, ⟨131, .bool, 1⟩),
    (.enableSleep, ⟨132, .bool, 1⟩),
    (.nightSleepStart, ⟨133, .value, 1⟩),
    (.nightSleepPeriod, ⟨134, .value, 1⟩),
    (.autoBrightness, ⟨135, .bool, 1⟩),
    (.use12hMode, ⟨136, .bool, 1⟩),
    (.customAnimLastT, ⟨137, .value, 1⟩),
    (.lightStatus, ⟨138, .value, 1⟩),
    (.temperatureStatus, ⟨139, .value, 1⟩),
    (.humidityStatus, ⟨140, .value, 1⟩),
    (.soilStatus, ⟨151, .value, 1⟩),
    (.enableLocationWeather, ⟨141, .bool, 1⟩),
    (.longitude, ⟨142, .value, 1⟩),
    (.latitude, ⟨143, .value, 1⟩),
    (.language, ⟨144, .value, 1⟩),
    (.ambientLightHistory, ⟨145, .value, 1⟩),
    (.batteryPercentHistory, ⟨146, .value, 1⟩),
    (.soilMoistureHistory, ⟨147, .value, 1⟩),
    (.humidityHistory, ⟨148, .value, 1⟩),
    (.temperatureHistory, ⟨149, .value, 10⟩),
    (.waterLevelHistory, ⟨150, .value, 1⟩),
    (.tutorialComplete, ⟨152, .value, 1⟩) ]

/-! ## The reports -/

/-- The store of the properties, as far as a report reads it. -/
structure PropView where
  /-- `Prop::ready` -/
  ready : ReportKey → Bool
  /-- `Prop::get` -/
  get : ReportKey → Int

/-- What has become of a report. -/
structure Reported where
  /-- the value returned -/
  ok : Bool
  /-- the data points passed to the SDK, if it was called -/
  sent : Option (List DataPoint)
  /-- `Sys::set_condition(Sys::DATA_REPORTED)` was called -/
  dataReported : Bool
  deriving DecidableEq, Repr

/-- The data point of a property; `Prop::get<bool>` gives 0 or 1. -/
def DpType.dataPoint (t : DpType) (raw : Int) : DataPoint where
  dpid := t.dp
  value :=
    match t.type with
    | .bool => .bool (if raw = 0 then 0 else 1)
    | .value => .value (raw * t.factor.toNat)

namespace NetInterface

variable (n : NetInterface)

/-- `IOT::report_dp` -/
def reportDp (dp : DataPoint) : Reported :=
  if n.connected then ⟨true, some [dp], false⟩ else ⟨false, none, false⟩

/-- `IOT::report_prop` -/
def reportProp (props : PropView) (prop : ReportKey) : Reported :=
  if n.connected then
    match tuyaDpMap.lookup prop with
    -- a property without a data point
    | none => ⟨false, none, false⟩
    | some t => ⟨true, some [t.dataPoint (props.get prop)], false⟩
  else ⟨false, none, false⟩

/-- The loop of `report_all_prop`. -/
def allProps (props : PropView) : List DataPoint :=
  tuyaDpMap.filterMap fun (index, t) =>
    -- a property that was never written is not reported
    if !props.ready index then none
    -- the source leaves this one out by name
    else if index = .pomodoro then none
    else some (t.dataPoint (props.get index))

/-- `IOT::report_all_prop`; `sdk` is whether the SDK returns `OPRT_OK`. -/
def reportAllProp (props : PropView) (sdk : Bool) : Reported :=
  if n.connected then ⟨true, some (allProps props), sdk⟩ else ⟨false, none, false⟩

end NetInterface

end Ivy.Native
