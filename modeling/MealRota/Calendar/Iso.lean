import MealRota.Calendar.Date
import MealRota.Json.Display
import MealRota.Number.Numeral

/-!
# MealRota.Calendar.Iso

Days in ISO 8601 form.  Written, a day is `YYYY-MM-DD`.  Read are calendar dates
and week dates (`YYYY-Www` stands for the Monday of the week), each with dashes
throughout or without any.  The text must have 7, 8 or 10 bytes; what follows a
complete date within them is not looked at.
-/

namespace MealRota

/-- Why a value is not an ISO date. -/
inductive IsoProblem where
  /-- The value is no text. -/
  | notText
  /-- The text does not have the form of a date, or names a week that does not exist. -/
  | malformed (s : String)
  /-- The form is right, but the year is not in the calendar. -/
  | yearOutOfRange (year : Nat)
  /-- The form is right, but there is no such month. -/
  | monthOutOfRange
  /-- The form is right, but the month has no such day. -/
  | dayOutOfRange
  deriving DecidableEq

namespace IsoProblem

/-- The wording of a problem. -/
def message : IsoProblem → String
  | notText => "fromisoformat: argument must be str"
  | malformed s => "Invalid isoformat string: " ++ (Value.text s).display
  | yearOutOfRange year => "year " ++ toString year ++ " is out of range"
  | monthOutOfRange => "month must be in 1..12"
  | dayOutOfRange => "day is out of range for month"

end IsoProblem

namespace Date

/-! ## writing -/

/-- The form `YYYY-MM-DD`. -/
def iso (d : Date) : String :=
  let c := d.civil
  String.ofList (Layout.padLeft 4 (Nat.toDigits 10 c.year) ++ '-' ::
    Layout.padLeft 2 (Nat.toDigits 10 c.month) ++ '-' :: Layout.padLeft 2 (Nat.toDigits 10 c.day))

/-! ## reading -/

/-- What an ISO date says. -/
inductive IsoFields where
  | calendar (year month day : Nat)
  | week (year week day : Nat)
  deriving DecidableEq

/-- The number of the first `n` characters, all of them digits, and the rest. -/
def takeDigits? (n : Nat) (cs : List Char) : Option (Nat × List Char) :=
  let digits := cs.take n
  if digits.length = n ∧ digits.all Char.isDigit then some (digitsValue digits, cs.drop n) else none

/-- What follows a dash, which must come first if the date has dashes. -/
def afterDash? (dashed : Bool) (cs : List Char) : Option (List Char) :=
  if dashed then
    match cs with
    | '-' :: r => some r
    | _ => none
  else some cs

/-- The fields of a week date after the letter `W`. -/
def weekFields? (year : Nat) (dashed : Bool) (cs : List Char) : Option IsoFields := do
  let (week, r) ← takeDigits? 2 cs
  match r with
  | [] => return .week year week 1
  | r =>
    let (day, _) ← takeDigits? 1 (← afterDash? dashed r)
    return .week year week day

/-- The fields of a calendar date after the year. -/
def calendarFields? (year : Nat) (dashed : Bool) (cs : List Char) : Option IsoFields := do
  let (month, r) ← takeDigits? 2 cs
  let (day, _) ← takeDigits? 2 (← afterDash? dashed r)
  return .calendar year month day

/-- The fields of an ISO date. -/
def isoFields? (cs : List Char) : Option IsoFields := do
  let (year, r) ← takeDigits? 4 cs
  let (dashed, r) := match r with
    | '-' :: r => (true, r)
    | r => (false, r)
  match r with
  | 'W' :: r => weekFields? year dashed r
  | r => calendarFields? year dashed r

/-- The day with a year, month and day of the month. -/
def ofCalendar (year month day : Nat) : Except IsoProblem Date :=
  if year = 0 ∨ lastYear < year then .error (.yearOutOfRange year)
  else match (monthLengths (isLeapYear year))[month - 1]? with
    | none => .error .monthOutOfRange
    | some length =>
      if month = 0 then .error .monthOutOfRange
      else if day = 0 ∨ length < day then .error .dayOutOfRange
      else match ofOrdinal? (CivilDate.ordinal ⟨year, month, day⟩) with
        | some d => .ok d
        | none => .error (.yearOutOfRange year)

/-- How many days after a Monday a year begins; before year 1 the calendar goes on backwards. -/
def yearStart (year : Nat) : Nat := if year = 0 then 5 else daysBeforeYear year % 7

/-- How many ISO weeks a year has: 53 if it begins on a Thursday, or on a Wednesday in a
leap year, and 52 otherwise. -/
def weeksInYear (year : Nat) : Nat :=
  if yearStart year = 3 ∨ (yearStart year = 2 ∧ isLeapYear year) then 53 else 52

/-- The ordinal number of the Monday of the first ISO week of a year: the week that holds
the year's first Thursday. -/
def firstWeekOrdinal (year : Nat) : Nat :=
  let start := yearStart year
  if start ≤ 3 then daysBeforeYear year + 1 - start else daysBeforeYear year + 8 - start

/-- The day of an ISO week.  Weeks of the year 0 have no month in the calendar. -/
def ofWeek (s : String) (year week day : Nat) : Except IsoProblem Date :=
  if week = 0 ∨ weeksInYear year < week ∨ day = 0 ∨ 7 < day then .error (.malformed s)
  else if year = 0 then .error .monthOutOfRange
  else match ofOrdinal? (firstWeekOrdinal year + 7 * (week - 1) + (day - 1)) with
    | some d => .ok d
    | none => .error (.yearOutOfRange (lastYear + 1))

/-- The day that an ISO text names. -/
def ofIso (s : String) : Except IsoProblem Date :=
  if s.utf8ByteSize = 7 ∨ s.utf8ByteSize = 8 ∨ s.utf8ByteSize = 10 then
    match isoFields? s.toList with
    | some (.calendar year month day) => ofCalendar year month day
    | some (.week year week day) => ofWeek s year week day
    | none => .error (.malformed s)
  else .error (.malformed s)

/-- The day that a value names. -/
def ofValue : Value → Except IsoProblem Date
  | .text s => ofIso s
  | _ => .error .notText

end Date

end MealRota
