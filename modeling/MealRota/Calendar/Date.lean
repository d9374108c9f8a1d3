/-!
# MealRota.Calendar.Date

Days of the proleptic Gregorian calendar from 0001-01-01 to 9999-12-31.  A day
is its ordinal number, 0001-01-01 being day 1; year, month and day of the month
are a view of it.  Adding days beyond the last day of the calendar gives nothing.

* `addDays?_eq_some_iff`, `addDays?_eq_none_iff` — when and where adding days leads.
-/

namespace MealRota

/-! ## years and months -/

/-- Whether a year has a 29th of February. -/
def isLeapYear (year : Nat) : Bool := year % 4 = 0 && (year % 100 != 0 || year % 400 = 0)

/-- How many days precede the first of January of a year, counted from year 1. -/
def daysBeforeYear (year : Nat) : Nat :=
  365 * (year - 1) + (year - 1) / 4 - (year - 1) / 100 + (year - 1) / 400

/-- The lengths of the months of a year. -/
def monthLengths (leap : Bool) : List Nat :=
  [31, if leap then 29 else 28, 31, 30, 31, 30, 31, 31, 30, 31, 30, 31]

/-- The year of an ordinal number, and the day of that year, counted from 1.

Four centuries have 146097 days, a century 36524, four years 1461 and a year 365;
the last day of a leap year is the one left over in the last of four. -/
def yearAndDay (ordinal : Nat) : Nat × Nat :=
  let n := ordinal - 1
  let n400 := n / 146097
  let r400 := n % 146097
  let n100 := r400 / 36524
  let r100 := r400 % 36524
  let n4 := r100 / 1461
  let r4 := r100 % 1461
  let n1 := r4 / 365
  let year := 400 * n400 + 100 * n100 + 4 * n4 + n1
  if n100 = 4 ∨ n1 = 4 then (year, 366) else (year + 1, r4 % 365 + 1)

/-- Find the period that a day falls in: how many periods precede it, and the day within it. -/
def splitDay : List Nat → Nat → Nat × Nat
  | [], day => (0, day)
  | length :: lengths, day =>
      if day ≤ length then (0, day)
      else ((splitDay lengths (day - length)).1 + 1, (splitDay lengths (day - length)).2)

/-! ## days -/

/-- The ordinal number of 9999-12-31. -/
def lastOrdinal : Nat := 3652059

/-- The last year of the calendar. -/
def lastYear : Nat := 9999

/-- A day of the calendar. -/
structure Date where
  ordinal : Nat
  pos : 0 < ordinal
  le_last : ordinal ≤ lastOrdinal
  deriving DecidableEq

/-- A day by year, month and day of the month. -/
structure CivilDate where
  year : Nat
  month : Nat
  day : Nat
  deriving DecidableEq

/-- The days of the week. -/
inductive Weekday where
  | monday
  | tuesday
  | wednesday
  | thursday
  | friday
  | saturday
  | sunday
  deriving DecidableEq

namespace Weekday

/-- The English name. -/
def name : Weekday → String
  | monday => "Monday"
  | tuesday => "Tuesday"
  | wednesday => "Wednesday"
  | thursday => "Thursday"
  | friday => "Friday"
  | saturday => "Saturday"
  | sunday => "Sunday"

/-- The weekday `n` days after a Monday. -/
def ofOffset (n : Nat) : Weekday :=
  match n % 7 with
  | 0 => monday
  | 1 => tuesday
  | 2 => wednesday
  | 3 => thursday
  | 4 => friday
  | 5 => saturday
  | _ => sunday

end Weekday

namespace Date

/-- The first day of the calendar, a Monday. -/
def first : Date := ⟨1, by decide, by decide⟩

instance : Inhabited Date := ⟨first⟩

theorem ext {a b : Date} (h : a.ordinal = b.ordinal) : a = b := by
  cases a
  cases b
  simp_all

/-- The day with an ordinal number, if the calendar has it. -/
def ofOrdinal? (n : Nat) : Option Date :=
  if h : 0 < n ∧ n ≤ lastOrdinal then some ⟨n, h.1, h.2⟩ else none

theorem ofOrdinal?_eq_some_iff {n : Nat} {d : Date} :
    ofOrdinal? n = some d ↔ d.ordinal = n := by
  unfold ofOrdinal?
  constructor
  · intro h
    split at h
    · cases h; rfl
    · cases h
  · intro h
    subst h
    rw [dif_pos ⟨d.pos, d.le_last⟩]

/-- The day `n` days later, if the calendar has it. -/
def addDays? (d : Date) (n : Nat) : Option Date := ofOrdinal? (d.ordinal + n)

theorem addDays?_eq_some_iff {d e : Date} {n : Nat} :
    d.addDays? n = some e ↔ e.ordinal = d.ordinal + n := ofOrdinal?_eq_some_iff

theorem addDays?_eq_none_iff {d : Date} {n : Nat} :
    d.addDays? n = none ↔ lastOrdinal < d.ordinal + n := by
  have := d.pos
  unfold addDays? ofOrdinal?
  split
  · simp; omega
  · simp; omega

/-- How many days after a Monday the day is. -/
def daysSinceMonday (d : Date) : Nat := (d.ordinal + 6) % 7

/-- The day of the week. -/
def weekday (d : Date) : Weekday := .ofOffset d.daysSinceMonday

/-- Whether the day is a Saturday or a Sunday. -/
def isWeekend (d : Date) : Bool := 5 ≤ d.daysSinceMonday

/-- Whether the day is a Monday. -/
def isMonday (d : Date) : Bool := d.daysSinceMonday = 0

/-- Year, month and day of the month. -/
def civil (d : Date) : CivilDate :=
  let (year, day) := yearAndDay d.ordinal
  let (month, day) := splitDay (monthLengths (isLeapYear year)) day
  ⟨year, month + 1, day⟩

end Date

/-- How many days of a year precede a month. -/
def daysBeforeMonth (leap : Bool) (month : Nat) : Nat :=
  ((monthLengths leap).take (month - 1)).foldl (fun days length => days + length) 0

/-- The ordinal number of a day given by year, month and day of the month. -/
def CivilDate.ordinal (c : CivilDate) : Nat :=
  daysBeforeYear c.year + daysBeforeMonth (isLeapYear c.year) c.month + c.day

end MealRota
