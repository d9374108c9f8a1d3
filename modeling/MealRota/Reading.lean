import MealRota.Calendar.Week
import MealRota.Error
import MealRota.Text.Blank
import MealRota.Text.Lowercase

/-!
# MealRota.Reading

Reading days and courses from values given from outside, and moving between
days, with the failures that planning reports.
-/

namespace MealRota

/-! ## days -/

/-- The day that a value names. -/
def readDate (v : Value) : Except PlanError Date :=
  (Date.ofValue v).mapError fun problem => (PlanError.invalidDate (.notIso v problem)).raised

/-- A day as the start of a week. -/
def asWeekStart (d : Date) : Except PlanError Date :=
  if d.isMonday then .ok d else .error (.invalidDate (.notMonday d))

/-- The start of a week that a value names. -/
def readWeekStart (v : Value) : Except PlanError Date := (readDate v).bind asWeekStart

/-- The days of a week. -/
def datesOfWeek (start : Date) : Except PlanError (List Date) :=
  match start.weekDates? with
  | some days => .ok days
  | none => .error .dateOutOfRange

/-- The day `n` days after another. -/
def dateAfter (d : Date) (n : Nat) : Except PlanError Date :=
  match d.addDays? n with
  | some e => .ok e
  | none => .error .dateOutOfRange

/-- The Monday of the week after a day's own. -/
def nextWeekStart (today : Date) : Except PlanError Date :=
  match today.nextWeekStart? with
  | some d => .ok d
  | none => .error .dateOutOfRange

/-! ## courses -/

/-- The course that a value names; case and outer blanks do not matter. -/
def readCourse (v : Value) : Except PlanError Course :=
  match Course.ofName? (Text.lower (Text.trim v.plain)) with
  | some c => .ok c
  | none => .error (PlanError.unknownCourse v).raised

end MealRota
