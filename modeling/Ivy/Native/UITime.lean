/-!
# The clock display

`UITime` shows the time, AM or PM, the day of the week and the date. `update_info` writes a label
only if the part of the time it shows has changed since it was last written, or if it is forced to.
The tables of the languages are parameters; the weather and the positions of the labels are left
out.
-/

namespace Ivy.Native

/-- `Lang::lang_t`, as far as `get_date_str` has cases for it. -/
inductive LangT
  | zh
  | en
  | jp
  | other (n : Int)
  deriving DecidableEq, Repr

/-- The fields of `tm` that are shown, in the ranges of `localtime`. In `last_tm` the day of the
    month is 0 at first. -/
structure Tm where
  tmHour : Fin 24
  tmMin : Fin 60
  tmWday : Fin 7
  tmMday : Fin 32
  tmMon : Fin 12
  deriving DecidableEq, Repr

/-- The texts of each language. -/
structure LangTexts where
  /-- `LANG_OPTION(Lang::ui_day, i)` -/
  uiDayOption : LangT → Fin 7 → String
  /-- `LANG_OPTION(Lang::ui_month, i)` -/
  uiMonthOption : LangT → Fin 12 → String
  /-- `LANG(Lang::ui_month)` -/
  uiMonth : LangT → String
  /-- `LANG(Lang::ui_date)` -/
  uiDate : LangT → String
  /-- `get_mday_str` -/
  getMdayStr : Fin 32 → String

/-- What a call of `update_info` finds: the local time, and the properties at that moment. -/
structure Moment where
  info : Tm
  language : LangT
  use12hMode : Bool
  deriving DecidableEq, Repr

/-- The texts of the labels, and `last_tm`. -/
structure UITime where
  timeLabel : String
  amLabel : String
  dayLabel : String
  dateLabel : String
  lastTm : Tm
  deriving DecidableEq, Repr

/-- `%02d` -/
def pad2 (n : Nat) : String :=
  if n < 10 then "0" ++ toString n else toString n

/-- The half of the day, as the source computes it. -/
def amText (hour : Nat) : String :=
  -- `localtime` never gives 24
  if hour > 11 ∧ hour ≠ 24 then "PM" else "AM"

/-- The hour in 12 hour mode. -/
def hour12 (hour : Nat) : Nat :=
  if hour = 0 then 12 else if hour > 12 then hour - 12 else hour

/-- `sprintf(time_str, "%02d:%02d", hour, min)` -/
def timeStr (hour min : Nat) : String :=
  pad2 hour ++ ":" ++ pad2 min

namespace UITime

variable (t : LangTexts) (m : Moment) (force : Bool) (u : UITime)

/-- `UITime::get_date_str` -/
def getDateStr : String :=
  match m.language with
  | .zh | .jp =>
    toString (m.info.tmMon.val + 1) ++ t.uiMonth m.language ++ toString m.info.tmMday.val ++
      t.uiDate m.language
  | .en => t.getMdayStr m.info.tmMday ++ " " ++ t.uiMonthOption m.language m.info.tmMon
  -- the other languages have no case, and the string is empty
  | .other _ => ""

/-- The part of `update_info` for the time. In 24 hour mode the AM label is not written. -/
def updateTime : UITime :=
  if force ∨ u.lastTm.tmHour ≠ m.info.tmHour ∨ u.lastTm.tmMin ≠ m.info.tmMin then
    { u with
      lastTm := { u.lastTm with tmHour := m.info.tmHour, tmMin := m.info.tmMin }
      -- in 24 hour mode the label keeps its text
      amLabel := if m.use12hMode then amText m.info.tmHour else u.amLabel
      timeLabel := timeStr (if m.use12hMode then hour12 m.info.tmHour else m.info.tmHour)
        m.info.tmMin }
  else u

/-- The part for the day of the week. -/
def updateDay : UITime :=
  if force ∨ u.lastTm.tmWday ≠ m.info.tmWday then
    { u with
      lastTm := { u.lastTm with tmWday := m.info.tmWday }
      dayLabel := t.uiDayOption m.language m.info.tmWday }
  else u

/-- The part for the date. -/
def updateDate : UITime :=
  if force ∨ u.lastTm.tmMday ≠ m.info.tmMday ∨ u.lastTm.tmMon ≠ m.info.tmMon then
    { u with
      lastTm := { u.lastTm with tmMday := m.info.tmMday, tmMon := m.info.tmMon }
      dateLabel := getDateStr t m }
  else u

/-- `UITime::update_info` -/
def updateInfo : UITime :=
  ((u.updateTime m force).updateDay t m force).updateDate t m force

/-- `UITime::start_routine` -/
def startRoutine : UITime :=
  u.updateInfo t m true

end UITime

end Ivy.Native
