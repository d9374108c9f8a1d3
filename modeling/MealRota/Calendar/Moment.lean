import MealRota.Calendar.Iso

/-!
# MealRota.Calendar.Moment

Days given as moments.  A moment is a calendar date with or without a time, or a
count of seconds since the beginning of 1970; counts of more than `2 · 10^10` are
taken for milliseconds.  It names a day if it is the midnight at which the day
begins, wherever its time zone is.

* `Date.ofMoment` — the day that a value names.
-/

namespace MealRota

/-- Why a value does not name a day. -/
inductive MomentProblem where
  /-- The value is neither a text nor a number. -/
  | noMoment
  /-- The value is not the form of a moment, or a moment that no calendar has. -/
  | unreadable
  /-- The moment lies within a day. -/
  | notMidnight
  /-- The day lies in the year before year 1. -/
  | yearZero
  deriving DecidableEq

namespace Date

/-! ## dates and times -/

/-- Whether the calendar has such a day, the year 0 included. -/
def isCivil (c : CivilDate) : Bool :=
  0 < c.month && 0 < c.day
    && ((monthLengths (isLeapYear c.year))[c.month - 1]?).any fun length => c.day ≤ length

/-- A date in the form `YYYY-MM-DD`, and what follows it. -/
def civilDate? (cs : List Char) : Option (CivilDate × List Char) := do
  let (year, r) ← takeDigits? 4 cs
  let (month, r) ← takeDigits? 2 (← afterDash? true r)
  let (day, r) ← takeDigits? 2 (← afterDash? true r)
  guard (isCivil ⟨year, month, day⟩)
  return (⟨year, month, day⟩, r)

/-- A number of two digits below a bound, and what follows it. -/
def twoDigits? (bound : Nat) (cs : List Char) : Option (Nat × List Char) :=
  (takeDigits? 2 cs).filter fun p => p.1 < bound

/-- Whether a fraction of a second, cut to microseconds, is zero, and what follows it.  There
may be no fraction. -/
def zeroFraction? : List Char → Option (Bool × List Char)
  | [] => some (true, [])
  | c :: r =>
      if c = '.' ∨ c = ',' then
        let (digits, rest) := r.span Char.isDigit
        if digits.isEmpty then none else some ((digits.take 6).all (· = '0'), rest)
      else some (true, c :: r)

/-- Whether a time of day is midnight, and what follows it. -/
def midnight? (cs : List Char) : Option (Bool × List Char) := do
  let (hour, r) ← twoDigits? 24 cs
  guard (r.head? = some ':')
  let (minute, r) ← twoDigits? 60 (r.drop 1)
  match r with
  | ':' :: r =>
    let (second, r) ← twoDigits? 60 r
    let (zero, r) ← zeroFraction? r
    return (hour = 0 && minute = 0 && second = 0 && zero, r)
  | r => return (hour = 0 && minute = 0, r)

/-- Whether the text is the distance of a time zone from universal time after its sign. -/
def isZoneDistance (cs : List Char) : Bool :=
  match twoDigits? 24 cs with
  | none => false
  | some (_, r) =>
    let minutes := match r with
      | ':' :: r => r
      | r => r
    (twoDigits? 60 minutes).any fun p => p.2.isEmpty

/-- Whether the text is a time zone, or empty. -/
def isZone : List Char → Bool
  | [] => true
  | c :: r =>
      if c = 'Z' ∨ c = 'z' then r.isEmpty
      else if c = '+' ∨ c = '-' ∨ c = '\u2212' then isZoneDistance r
      else false

/-- A date and a time: the date, and whether the time is midnight. -/
def dateAndTime? (cs : List Char) : Option (CivilDate × Bool) := do
  let (date, r) ← civilDate? cs
  guard (['T', 't', ' ', '_'].any fun c => r.head? = some c)
  let (zero, r) ← midnight? (r.drop 1)
  guard (isZone r)
  return (date, zero)

/-- A date as a day of the calendar. -/
def ofCivil (c : CivilDate) : Except MomentProblem Date :=
  if c.year = 0 then .error .yearZero
  else match ofOrdinal? c.ordinal with
    | some d => .ok d
    | none => .error .unreadable

/-! ## counts -/

/-- The ordinal number of 1970-01-01. -/
def epoch : Nat := 719163

/-- How many microseconds a day has. -/
def microsecondsPerDay : Int := 86400000000

/-- The first microsecond of the year 0, counted from the beginning of 1970. -/
def firstMicrosecond : Int := -62167219200000000

/-- The last microsecond of the year 9999. -/
def lastMicrosecond : Int := 253402300799999999

/-- The day that begins some microseconds after the beginning of 1970. -/
def atMicrosecond (t : Int) : Except MomentProblem Date :=
  if t < firstMicrosecond ∨ lastMicrosecond < t then .error .unreadable
  else if t.fmod microsecondsPerDay ≠ 0 then .error .notMidnight
  else match ofOrdinal? (epoch + t.fdiv microsecondsPerDay).toNat with
    | some d => .ok d
    | none => .error .yearZero

/-- The largest count of seconds; larger ones are taken for milliseconds. -/
def mostSeconds : Nat := 20000000000

/-- How many microseconds the unit of a count has. -/
def unitOfCount (inSeconds : Bool) : Nat := if inSeconds then 1000000 else 1000

/-- The day that a whole count names. -/
def ofWholeCount (n : Int) : Except MomentProblem Date :=
  atMicrosecond (n * unitOfCount (n.natAbs ≤ mostSeconds))

/-- The day that a count with a fraction names, the fraction taken to the nearest microsecond. -/
def ofRealCount (x : Float) : Except MomentProblem Date :=
  let unit := unitOfCount (x.abs ≤ Float.ofNat mostSeconds)
  match exactWhole? x.floor, exactWhole? ((x - x.floor) * Float.ofNat unit).round with
  | some n, some microseconds => atMicrosecond (n * unit + microseconds)
  | _, _ => .error .unreadable

/-! ## reading -/

/-- A count written in digits.  It may have a point, and an exponent if it has a point. -/
def writtenCount? (cs : List Char) : Option Number := do
  let n ← Numeral.parts? true cs
  match n.fraction with
  | none =>
    guard (!n.wholeDigits.isEmpty && n.exponent.isNone)
    return .whole n.toWhole
  | some fraction =>
    guard (!(n.wholeDigits ++ fraction).isEmpty)
    return .real n.toDouble

/-- The day that a text names. -/
def ofText (cs : List Char) : Except MomentProblem Date :=
  match civilDate? cs with
  | some (c, []) => ofCivil c
  | _ =>
    match dateAndTime? cs with
    | some (c, midnight) => if midnight then ofCivil c else .error .notMidnight
    | none =>
      match writtenCount? cs with
      | some (.whole n) => ofWholeCount n
      | some (.real x) => ofRealCount x
      | none => .error .unreadable

/-- The day that a value names. -/
def ofMoment : Value → Except MomentProblem Date
  | .text s => ofText s.toList
  | .number (.whole n) =>
    if (nearestDouble n).isSome then ofWholeCount n else .error .noMoment
  | .number (.real x) => ofRealCount x
  | _ => .error .noMoment

end Date

end MealRota
