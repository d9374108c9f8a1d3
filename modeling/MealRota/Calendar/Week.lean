import MealRota.Calendar.Date

/-!
# MealRota.Calendar.Week

Weeks run from Monday to Sunday.

* `nextWeekStart?` — the Monday of the week after a day;
* `weekDates?` — the seven days from a day on.

Both give nothing where they would leave the calendar.
-/

namespace MealRota

/-- How many days a week has. -/
def daysPerWeek : Nat := 7

namespace Date

/-- The Monday of the week after the day's own. -/
def nextWeekStart? (today : Date) : Option Date :=
  today.addDays? (daysPerWeek - today.daysSinceMonday)

/-- The seven days from a day on. -/
def weekDates? (start : Date) : Option (List Date) :=
  (List.range daysPerWeek).mapM start.addDays?

end Date

end MealRota
