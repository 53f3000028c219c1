import Ivy.ForStd.Transition
import Ivy.Native.UITime

/-!
# The clock display against a full redraw

A label is written again when the part of the time that it shows has changed. Its text also depends
on the language and on the 12 hour mode, and a change of these alone is not noticed: the label keeps
the text of the moment at which it was written. So the display is what a full redraw would give as
long as no setting changes a text while the time it shows stays the same.

## Key results

- `updateInfo_eq`: what one call does to each label
- `Tracks.step`: each label shows the moment at which it was written last
- `display_current_iff`: when every call leaves the labels as a full redraw would
-/

namespace Ivy.Spec

open Ivy.Native Ivy.Lts

/-! ## One call -/

/-! The part of the time that a label shows: the label is due when it has changed. -/

def timeOf (a : Tm) : Fin 24 × Fin 60 := (a.tmHour, a.tmMin)

def dayOf (a : Tm) : Fin 7 := a.tmWday

def dateOf (a : Tm) : Fin 32 × Fin 12 := (a.tmMday, a.tmMon)

/-- The time is the hour and the minute, -/
theorem timeOf_eq {a b : Tm} : timeOf a = timeOf b ↔ a.tmHour = b.tmHour ∧ a.tmMin = b.tmMin :=
  Prod.ext_iff

/-- the date is the day and the month. -/
theorem dateOf_eq {a b : Tm} : dateOf a = dateOf b ↔ a.tmMday = b.tmMday ∧ a.tmMon = b.tmMon :=
  Prod.ext_iff

/-- The text for the time label. -/
def timeText (m : Moment) : String :=
  timeStr (if m.use12hMode then hour12 m.info.tmHour else m.info.tmHour) m.info.tmMin

/-- The text for the label of the day. -/
def dayText (t : LangTexts) (m : Moment) : String :=
  t.uiDayOption m.language m.info.tmWday

/-- The texts of the four labels. -/
def labels (u : UITime) : String × String × String × String :=
  (u.timeLabel, u.amLabel, u.dayLabel, u.dateLabel)

/-- The labels after an unforced call are those after a forced one. -/
def ShowsNow (t : LangTexts) (u : UITime) (m : Moment) : Prop :=
  labels (u.updateInfo t m false) = labels (u.updateInfo t m true)

instance (t : LangTexts) (u : UITime) (m : Moment) : Decidable (ShowsNow t u m) :=
  inferInstanceAs (Decidable (_ = _))

section

variable (t : LangTexts) (u : UITime) (m : Moment)

/-- The time and the AM label are written if they are due; `last_tm` has the time of the call in any
    case. -/
theorem updateTime_eq (force : Bool) :
    u.updateTime m force =
      { u with
        timeLabel := if force ∨ timeOf u.lastTm ≠ timeOf m.info then timeText m else u.timeLabel
        amLabel :=
          if (force ∨ timeOf u.lastTm ≠ timeOf m.info) ∧ m.use12hMode then amText m.info.tmHour
          else u.amLabel
        lastTm := { u.lastTm with tmHour := m.info.tmHour, tmMin := m.info.tmMin } } := by
  unfold UITime.updateTime
  simp only [ne_eq, ← not_and_or, ← timeOf_eq]
  by_cases hdue : force = true ∨ ¬ timeOf u.lastTm = timeOf m.info
  · simp only [hdue, true_and, if_true, timeText]
  · -- not due: `last_tm` has this hour and minute already
    obtain ⟨hhour, hmin⟩ := timeOf_eq.mp (not_not.mp (not_or.mp hdue).2)
    simp only [hdue, false_and, if_false, ← hhour, ← hmin]

/-- The day is written when it is another one, -/
theorem updateDay_eq (force : Bool) :
    u.updateDay t m force =
      { u with
        dayLabel := if force ∨ dayOf u.lastTm ≠ dayOf m.info then dayText t m else u.dayLabel
        lastTm := { u.lastTm with tmWday := m.info.tmWday } } := by
  unfold UITime.updateDay
  by_cases hdue : force = true ∨ u.lastTm.tmWday ≠ m.info.tmWday
  · simp only [hdue, if_true, dayOf, dayText]
  · have hwday : u.lastTm.tmWday = m.info.tmWday := not_not.mp (not_or.mp hdue).2
    simp only [hdue, if_false, dayOf]
    rw [← hwday]

/-- and the date. -/
theorem updateDate_eq (force : Bool) :
    u.updateDate t m force =
      { u with
        dateLabel :=
          if force ∨ dateOf u.lastTm ≠ dateOf m.info then UITime.getDateStr t m else u.dateLabel
        lastTm := { u.lastTm with tmMday := m.info.tmMday, tmMon := m.info.tmMon } } := by
  unfold UITime.updateDate
  simp only [ne_eq, ← not_and_or, ← dateOf_eq]
  by_cases hdue : force = true ∨ ¬ dateOf u.lastTm = dateOf m.info
  · simp only [hdue, if_true]
  · obtain ⟨hmday, hmon⟩ := dateOf_eq.mp (not_not.mp (not_or.mp hdue).2)
    simp only [hdue, if_false, ← hmday, ← hmon]

/-- The three parts of a call do not disturb each other. -/
theorem updateInfo_eq (force : Bool) :
    u.updateInfo t m force =
      { timeLabel := if force ∨ timeOf u.lastTm ≠ timeOf m.info then timeText m else u.timeLabel
        amLabel :=
          if (force ∨ timeOf u.lastTm ≠ timeOf m.info) ∧ m.use12hMode then amText m.info.tmHour
          else u.amLabel
        dayLabel := if force ∨ dayOf u.lastTm ≠ dayOf m.info then dayText t m else u.dayLabel
        dateLabel :=
          if force ∨ dateOf u.lastTm ≠ dateOf m.info then UITime.getDateStr t m else u.dateLabel
        lastTm := m.info } := by
  rw [UITime.updateInfo, updateTime_eq, updateDay_eq, updateDate_eq]
  rfl

/-- The labels that are not due have to show what they would be set to. -/
theorem showsNow_iff :
    ShowsNow t u m ↔
      (timeOf u.lastTm = timeOf m.info →
        u.timeLabel = timeText m ∧ (m.use12hMode → u.amLabel = amText m.info.tmHour)) ∧
      (dayOf u.lastTm = dayOf m.info → u.dayLabel = dayText t m) ∧
      (dateOf u.lastTm = dateOf m.info → u.dateLabel = UITime.getDateStr t m) := by
  unfold ShowsNow labels
  rw [updateInfo_eq, updateInfo_eq]
  -- a label that is due is written by both calls
  by_cases htime : timeOf u.lastTm = timeOf m.info <;>
    by_cases hday : dayOf u.lastTm = dayOf m.info <;>
    by_cases hdate : dateOf u.lastTm = dateOf m.info <;> by_cases hmode : m.use12hMode <;>
    simp [htime, hday, hdate, hmode, and_assoc]

end

/-! ## Texts in both modes -/

/-- From 1 to 12 o'clock the hour is the same in both modes. -/
theorem hour12_text (hour : Fin 24) (min : Nat) :
    timeStr (hour12 hour) min = timeStr hour min ↔ 1 ≤ hour.val ∧ hour.val ≤ 12 := by
  -- the minutes are the same, so that the 24 hours can be compared one by one
  have hpad : ∀ hour : Fin 24,
      pad2 (hour12 hour) = pad2 hour ↔ 1 ≤ hour.val ∧ hour.val ≤ 12 := by
    decide
  unfold timeStr
  rw [String.append_left_inj, String.append_left_inj]
  exact hpad hour

/-- The text of the time depends on the time and the mode. -/
theorem timeText_of_mode_eq {a b : Moment} (htime : timeOf a.info = timeOf b.info)
    (hmode : a.use12hMode = b.use12hMode) : timeText a = timeText b := by
  obtain ⟨hhour, hmin⟩ := timeOf_eq.mp htime
  unfold timeText
  rw [hhour, hmin, hmode]

/-- At the same time, the text is the same in the other mode from 1 to 12 o'clock only. -/
theorem timeText_of_mode_ne {a b : Moment} (htime : timeOf a.info = timeOf b.info)
    (hmode : a.use12hMode ≠ b.use12hMode) :
    timeText a = timeText b ↔ 1 ≤ b.info.tmHour.val ∧ b.info.tmHour.val ≤ 12 := by
  obtain ⟨hhour, hmin⟩ := timeOf_eq.mp htime
  rw [← hour12_text b.info.tmHour b.info.tmMin]
  unfold timeText
  rw [hhour, hmin]
  -- the modes differ, and the one with 12 hours is on one of the sides
  cases ha : a.use12hMode <;> cases hb : b.use12hMode
  · exact absurd (ha.trans hb.symm) hmode
  · exact eq_comm
  · exact Iff.rfl
  · exact absurd (ha.trans hb.symm) hmode

/-- On the same day, only the language makes a difference. -/
theorem dayText_language {t : LangTexts} {a b : Moment} (hday : dayOf a.info = dayOf b.info) :
    dayText t a = dayText t { b with language := a.language } := by
  unfold dayText
  rw [show a.info.tmWday = b.info.tmWday from hday]

/-- The text of the date depends on the date and the language. -/
theorem getDateStr_language {t : LangTexts} {a b : Moment} (hdate : dateOf a.info = dateOf b.info) :
    UITime.getDateStr t a = UITime.getDateStr t { b with language := a.language } := by
  obtain ⟨hmday, hmon⟩ := dateOf_eq.mp hdate
  unfold UITime.getDateStr
  rw [hmday, hmon]

/-! ## Sequences of calls -/

/-- The display with the moments at which its labels were written last. -/
structure DisplayHistory where
  ui : UITime
  time : Moment
  /-- the AM label is not written before the first refresh in 12 hour mode -/
  am : Option Moment
  day : Moment
  date : Moment
  /-- the text of the AM label before the start -/
  amBefore : String

/-- What the AM label was set to last. -/
def DisplayHistory.amShown (h : DisplayHistory) : String :=
  match h.am with
  | some m => amText m.info.tmHour
  | none => h.amBefore

def DisplayHistory.start (t : LangTexts) (u : UITime) (m : Moment) : DisplayHistory where
  ui := u.startRoutine t m
  time := m
  am := if m.use12hMode then some m else none
  day := m
  date := m
  amBefore := u.amLabel

/-- A call of `update_info(false)`. -/
def DisplayHistory.step (t : LangTexts) (h : DisplayHistory) (m : Moment) : DisplayHistory where
  ui := h.ui.updateInfo t m false
  time := if timeOf h.time.info = timeOf m.info then h.time else m
  am := if timeOf h.time.info ≠ timeOf m.info ∧ m.use12hMode then some m else h.am
  day := if dayOf h.day.info = dayOf m.info then h.day else m
  date := if dateOf h.date.info = dateOf m.info then h.date else m
  amBefore := h.amBefore

/-- No setting has changed the text of a label that is not due. -/
structure TextsKept (t : LangTexts) (h : DisplayHistory) (m : Moment) : Prop where
  /-- in the other mode, the hour and the AM label are right by accident -/
  time : timeOf h.time.info = timeOf m.info →
    h.time.use12hMode = m.use12hMode ∨
      (1 ≤ m.info.tmHour.val ∧ m.info.tmHour.val ≤ 12) ∧
        (m.use12hMode → h.amShown = amText m.info.tmHour)
  day : dayOf h.day.info = dayOf m.info →
    dayText t { m with language := h.day.language } = dayText t m
  date : dateOf h.date.info = dateOf m.info →
    UITime.getDateStr t { m with language := h.date.language } = UITime.getDateStr t m

/-- A label with the text `label` shows the moment `w` at which it was written last: `last` has the
    same part of the time. -/
structure Shown {κ : Type} (part : Tm → κ) (text : Moment → String) (label : String) (last : Tm)
    (w : Moment) : Prop where
  last : part last = part w.info
  label : label = text w

/-- A call keeps a label that is not due; one that is due shows the moment of the call. -/
theorem Shown.step {κ : Type} [DecidableEq κ] {part : Tm → κ} {text : Moment → String}
    {label : String} {last : Tm} {w : Moment} (hw : Shown part text label last w) (m : Moment) :
    Shown part text (if part last ≠ part m.info then text m else label) m.info
      (if part w.info = part m.info then w else m) := by
  by_cases hsame : part w.info = part m.info
  · -- not due: label and moment stay
    rw [if_neg (not_not.mpr (hw.last.trans hsame)), if_pos hsame]
    exact ⟨hsame.symm, hw.label⟩
  · rw [if_pos (hw.last ▸ hsame), if_neg hsame]
    exact ⟨rfl, rfl⟩

/-- Every label shows the moment at which it was written last. -/
structure Tracks (t : LangTexts) (h : DisplayHistory) : Prop where
  time : Shown timeOf timeText h.ui.timeLabel h.ui.lastTm h.time
  day : Shown dayOf (dayText t) h.ui.dayLabel h.ui.lastTm h.day
  date : Shown dateOf (UITime.getDateStr t) h.ui.dateLabel h.ui.lastTm h.date
  am : h.ui.amLabel = h.amShown
  /-- in 12 hour mode the AM label is written with the time -/
  amOfTime : h.time.use12hMode = true → h.amShown = amText h.time.info.tmHour

section

variable {t : LangTexts} {h : DisplayHistory} {m : Moment}

/-- In the beginning everything is written. -/
theorem tracks_start (u : UITime) : Tracks t (.start t u m) := by
  have hui : (DisplayHistory.start t u m).ui = u.updateInfo t m true := rfl
  rw [updateInfo_eq] at hui
  simp only [true_or, true_and, if_true] at hui
  -- the label is written only in the mode with twelve hours
  have ham : (DisplayHistory.start t u m).amShown =
      if m.use12hMode then amText m.info.tmHour else u.amLabel := by
    unfold DisplayHistory.start DisplayHistory.amShown
    cases m.use12hMode <;> rfl
  refine ⟨?_, ?_, ?_, ?_, fun hmode => ham.trans (if_pos hmode)⟩ <;> rw [hui]
  · exact ⟨rfl, rfl⟩
  · exact ⟨rfl, rfl⟩
  · exact ⟨rfl, rfl⟩
  · exact ham.symm

/-- The label for the half of the day is written with the time. -/
theorem amShown_step :
    (h.step t m).amShown =
      if timeOf h.time.info ≠ timeOf m.info ∧ m.use12hMode then amText m.info.tmHour
      else h.amShown := by
  unfold DisplayHistory.step DisplayHistory.amShown
  by_cases hwritten : timeOf h.time.info ≠ timeOf m.info ∧ m.use12hMode = true
  · simp only [if_pos hwritten]
  · simp only [if_neg hwritten]

/-- Every update writes what has changed. -/
theorem Tracks.step (hs : Tracks t h) (m : Moment) : Tracks t (h.step t m) := by
  have hui : (h.step t m).ui = h.ui.updateInfo t m false := rfl
  rw [updateInfo_eq] at hui
  simp only [Bool.false_eq_true, false_or] at hui
  constructor
  · rw [hui]
    exact hs.time.step m
  · rw [hui]
    exact hs.day.step m
  · rw [hui]
    exact hs.date.step m
  · rw [hui, amShown_step, ← hs.am, ← hs.time.last]
  · intro hmode
    rw [amShown_step]
    by_cases hsame : timeOf h.time.info = timeOf m.info
    · -- nothing was written
      have htime : (h.step t m).time = h.time := if_pos hsame
      rw [htime] at hmode ⊢
      rw [if_neg fun hdue => hdue.1 hsame]
      exact hs.amOfTime hmode
    · -- both labels were written in this call
      have htime : (h.step t m).time = m := if_neg hsame
      rw [htime] at hmode ⊢
      exact if_pos ⟨hsame, hmode⟩

/-- A time label that is not due shows the right text in the mode in which it was written, or by
    accident. -/
theorem Tracks.time_iff (hs : Tracks t h) (hsame : timeOf h.time.info = timeOf m.info) :
    timeText h.time = timeText m ∧ (m.use12hMode → h.amShown = amText m.info.tmHour) ↔
      h.time.use12hMode = m.use12hMode ∨
        (1 ≤ m.info.tmHour.val ∧ m.info.tmHour.val ≤ 12) ∧
          (m.use12hMode → h.amShown = amText m.info.tmHour) := by
  by_cases hmode : h.time.use12hMode = m.use12hMode
  · -- written in this mode, together with the AM label if there is one
    have ham : m.use12hMode = true → h.amShown = amText m.info.tmHour := by
      intro hon
      rw [hs.amOfTime (hmode.trans hon), (timeOf_eq.mp hsame).1]
    exact iff_of_true ⟨timeText_of_mode_eq hsame hmode, ham⟩ (.inl hmode)
  · rw [timeText_of_mode_ne hsame hmode]
    simp only [hmode, false_or]

/-- The display is current exactly if nothing else changes a text. -/
theorem Tracks.showsNow_iff_textsKept (hs : Tracks t h) : ShowsNow t h.ui m ↔ TextsKept t h m := by
  -- `last_tm` has the parts of the last refreshes, the labels have their texts
  rw [showsNow_iff, hs.time.last, hs.day.last, hs.date.last, hs.time.label, hs.am, hs.day.label,
    hs.date.label]
  constructor
  · rintro ⟨htime, hday, hdate⟩
    constructor
    · exact fun hsame => (hs.time_iff hsame).mp (htime hsame)
    · exact fun hsame => (dayText_language hsame).symm.trans (hday hsame)
    · exact fun hsame => (getDateStr_language hsame).symm.trans (hdate hsame)
  · intro hkept
    refine ⟨fun hsame => ?_, fun hsame => ?_, fun hsame => ?_⟩
    · exact (hs.time_iff hsame).mpr (hkept.time hsame)
    · exact (dayText_language hsame).trans (hkept.day hsame)
    · exact (getDateStr_language hsame).trans (hkept.date hsame)

end

/-- For every sequence of calls after the start, with any times and settings: every call leaves the
    labels as a full redraw would exactly if no label that is not due has had its text changed by a
    setting. -/
theorem display_current_iff (t : LangTexts) (u : UITime) (first : Moment) (ms : List Moment) :
    Always (DisplayHistory.step t) (fun h m => ShowsNow t h.ui m) (.start t u first) ms ↔
      Always (DisplayHistory.step t) (TextsKept t) (.start t u first) ms :=
  always_congr (I := Tracks t) (fun _ _ hs => hs.showsNow_iff_textsKept)
    (fun _ m hs _ => hs.step m) (tracks_start u)

/-- Friday, 15:23. -/
def fridayAfternoon (language : LangT) (use12hMode : Bool) : Moment :=
  ⟨⟨15, 23, 5, 21, 0⟩, language, use12hMode⟩

/-- When the 12 hour mode is switched on at 15:23, the label stays at 15:23 and there is no PM; when
    the language is changed, the day stays in the old one. -/
theorem not_display_current :
    ∃ (t : LangTexts) (u : UITime),
      let shown := u.startRoutine t (fridayAfternoon .en false)
      (labels (shown.updateInfo t (fridayAfternoon .en true) false) =
          ("15:23", "", "FRI", "21st Jan") ∧
        labels (shown.updateInfo t (fridayAfternoon .en true) true) =
          ("03:23", "PM", "FRI", "21st Jan")) ∧
      (labels (shown.updateInfo t (fridayAfternoon .zh false) false) =
          ("15:23", "", "FRI", "21st Jan") ∧
        labels (shown.updateInfo t (fridayAfternoon .zh false) true) =
          ("15:23", "", "周五", "1月21日")) ∧
      ∀ next ∈ [fridayAfternoon .en true, fridayAfternoon .zh false],
        ¬ Always (DisplayHistory.step t) (fun h m => ShowsNow t h.ui m)
          (.start t u (fridayAfternoon .en false)) [next] := by
  -- a language with other texts
  refine ⟨⟨fun l _ => if l = .en then "FRI" else "周五", fun _ _ => "Jan", fun _ => "月",
    fun _ => "日", fun _ => "21st"⟩, ⟨"", "", "", "", ⟨0, 0, 0, 0, 0⟩⟩, ?_⟩
  decide

end Ivy.Spec
