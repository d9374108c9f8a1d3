import Mathlib.Data.List.Chain
import MealRota.Proofs.IsoDates
import MealRota.Proofs.Timetable

/-!
# MealRota.Proofs.CalendarWeeks

The weeks of the calendar.  Every day is in the week of one Monday, the seven days of which
follow each other by the rules of the calendar; and the next week begins where it ends, unless
the calendar ends before.

* `Date.nextWeekStart_eq_ok_iff`, `Date.nextWeekStart_eq_error_iff` — the Monday after a day;
* `Date.IsWeek`, `Date.isWeek_of_datesOfWeek` — the days of a week;
* `Date.weeks_tile_calendar` — the weeks one after the other.
-/

namespace MealRota

namespace Date

/-! ## Mondays -/

/-- The Monday that comes one to seven days after a day. -/
structure IsNextMonday (today monday : Date) : Prop where
  isMonday : monday.isMonday = true
  after : today.ordinal < monday.ordinal
  within : monday.ordinal ≤ today.ordinal + 7

section

variable {today monday : Date}

theorem isMonday_iff : monday.isMonday = true ↔ monday.ordinal % 7 = 1 := by
  unfold isMonday daysSinceMonday
  simp only [decide_eq_true_eq]
  omega

/-- It is told by its ordinal number. -/
theorem isNextMonday_iff : IsNextMonday today monday ↔
    monday.ordinal = today.ordinal + (daysPerWeek - today.daysSinceMonday) := by
  constructor
  · intro h
    have hafter := h.after
    have hwithin := h.within
    have hmonday := isMonday_iff.mp h.isMonday
    simp only [daysPerWeek, daysSinceMonday]
    omega
  · intro h
    simp only [daysPerWeek, daysSinceMonday] at h
    exact ⟨isMonday_iff.mpr (by omega), by omega, by omega⟩

theorem nextWeekStart_eq_ok_iff : nextWeekStart today = .ok monday ↔ IsNextMonday today monday := by
  rw [isNextMonday_iff, ← addDays?_eq_some_iff]
  unfold nextWeekStart nextWeekStart?
  cases today.addDays? (daysPerWeek - today.daysSinceMonday) <;> simp

theorem nextWeekStart_eq_error_iff :
    nextWeekStart today = .error .dateOutOfRange ↔ ∀ monday, ¬ IsNextMonday today monday := by
  simp only [isNextMonday_iff, ← addDays?_eq_some_iff]
  unfold nextWeekStart nextWeekStart?
  cases today.addDays? (daysPerWeek - today.daysSinceMonday) <;> simp

/-- From any day of a week, the next week begins seven days after its own Monday. -/
theorem nextWeekStart_eq_dateAfter (hmonday : monday.isMonday = true)
    (hfrom : monday.ordinal ≤ today.ordinal) (hto : today.ordinal ≤ monday.ordinal + 6) :
    nextWeekStart today = dateAfter monday daysPerWeek := by
  have hordinal : today.ordinal + (daysPerWeek - today.daysSinceMonday) =
      monday.ordinal + daysPerWeek := by
    rw [isMonday_iff] at hmonday
    simp only [daysPerWeek, daysSinceMonday]
    omega
  unfold nextWeekStart nextWeekStart? dateAfter addDays?
  rw [hordinal]

/-- Every day is in the week of one Monday. -/
theorem existsUnique_monday (today : Date) : ∃! monday : Date,
    monday.isMonday = true ∧ monday.ordinal ≤ today.ordinal ∧
      today.ordinal ≤ monday.ordinal + 6 := by
  have hpos := today.pos
  have hlast := today.le_last
  have hdays : today.daysSinceMonday = (today.ordinal + 6) % 7 := rfl
  refine ⟨⟨today.ordinal - today.daysSinceMonday, by omega, by omega⟩,
    ⟨isMonday_iff.mpr ?_, ?_, ?_⟩, fun monday h => Date.ext ?_⟩
  case refine_4 =>
    have hmonday := isMonday_iff.mp h.1
    simp only
    omega
  all_goals
    simp only
    omega

end

/-! ## the days of a week -/

/-- The days of the week of a Monday: the Monday and the days after it by the rules of the
calendar, seven in all, of which the last two are the weekend.  No other days are between the
first and the last, and from each of them the next week begins seven days after the Monday. -/
structure IsWeek (monday : Date) (days : List Date) : Prop where
  head : days.head? = some monday
  length : days.length = 7
  consecutive : days.IsChain fun day next => next.civil = day.civil.next
  weekdays : days.map (·.weekday) =
    [.monday, .tuesday, .wednesday, .thursday, .friday, .saturday, .sunday]
  weekend : days.map (·.isWeekend) = [false, false, false, false, false, true, true]
  mem_iff : ∀ day, day ∈ days ↔ monday.ordinal ≤ day.ordinal ∧ day.ordinal ≤ monday.ordinal + 6
  next : ∀ day ∈ days, nextWeekStart day = dateAfter monday 7

section

variable {monday : Date} {days : List Date} (h : monday.weekDates? = some days)

include h

theorem head?_of_weekDates? : days.head? = some monday := by
  have hhead := congrArg List.head? (ordinals_of_weekDates? h)
  rw [List.head?_map] at hhead
  obtain ⟨day, hday, hordinal⟩ := Option.map_eq_some_iff.mp hhead
  rw [hday, Date.ext hordinal]

theorem isChain_of_weekDates? :
    days.IsChain fun day next => next.civil = day.civil.next := by
  have hordinals : (days.map (·.ordinal)).IsChain fun n next => next = n + 1 := by
    rw [ordinals_of_weekDates? h]
    simp [daysPerWeek, List.range_succ]
  exact ((List.isChain_map _).mp hordinals).imp fun _ _ hnext => civil_succ hnext

/-- The days after a Monday are counted from it. -/
theorem daysSinceMonday_of_weekDates? (hmonday : monday.isMonday = true) :
    days.map (·.daysSinceMonday) = List.range daysPerWeek := by
  have hmap := congrArg (List.map fun n => (n + 6) % 7) (ordinals_of_weekDates? h)
  rw [List.map_map, List.map_map] at hmap
  refine hmap.trans ?_
  rw [isMonday_iff] at hmonday
  conv_rhs => rw [← List.map_id (List.range daysPerWeek)]
  refine List.map_congr_left fun n hn => ?_
  have hlt : n < 7 := List.mem_range.mp hn
  simp only [Function.comp_apply, id_eq]
  omega

theorem isWeek_of_weekDates? (hmonday : monday.isMonday = true) : IsWeek monday days where
  head := head?_of_weekDates? h
  length := length_of_weekDates? h
  consecutive := isChain_of_weekDates? h
  weekdays := by
    have hmap := congrArg (List.map Weekday.ofOffset) (daysSinceMonday_of_weekDates? h hmonday)
    rwa [List.map_map] at hmap
  weekend := by
    have hmap := congrArg (List.map fun n => decide (5 ≤ n))
      (daysSinceMonday_of_weekDates? h hmonday)
    rwa [List.map_map] at hmap
  mem_iff _ := mem_weekDates? h
  next day hday :=
    have hbetween := (mem_weekDates? h).mp hday
    nextWeekStart_eq_dateAfter hmonday hbetween.1 hbetween.2

end

section

variable {monday : Date}

/-- A week that is in the calendar has its days. -/
theorem datesOfWeek_isWeek (hmonday : monday.isMonday = true)
    (hsunday : monday.ordinal + 6 ≤ lastOrdinal) :
    ∃ days, datesOfWeek monday = .ok days ∧ IsWeek monday days := by
  obtain ⟨first, rest, hdays⟩ := Kitchen.weekDates?_of_le hsunday
  exact ⟨first :: rest, by rw [datesOfWeek, hdays], isWeek_of_weekDates? hdays hmonday⟩

/-- A week that the calendar ends in has no list of days. -/
theorem datesOfWeek_eq_error (hsunday : lastOrdinal < monday.ordinal + 6) :
    datesOfWeek monday = .error .dateOutOfRange := by
  unfold datesOfWeek
  cases hdays : monday.weekDates? with
  | none => rfl
  | some days =>
      have hlast := last_of_weekDates? hdays
      have hle := (days.getLastD monday).le_last
      omega

end

/-! ## all weeks -/

/-- The weeks of the calendar.  The days are those that exist by its rules.  The week after a
day begins with the one Monday that comes one to seven days later, unless the calendar ends
before.  A Monday is read back from its ISO form; its week lists its days if it ends within the
calendar; and each day is in the week of one Monday. -/
theorem weeks_tile_calendar (today : Date) :
    (∀ c : CivilDate, (∃! d : Date, d.civil = c) ↔ c.InCalendar) ∧
      (∀ monday, nextWeekStart today = .ok monday ↔ IsNextMonday today monday) ∧
      (nextWeekStart today = .error .dateOutOfRange ↔ ∀ monday, ¬ IsNextMonday today monday) ∧
      (∀ monday : Date, monday.isMonday = true →
        readWeekStart (.text monday.iso) = .ok monday ∧
          (monday.ordinal + 6 ≤ lastOrdinal →
            ∃ days, datesOfWeek monday = .ok days ∧ IsWeek monday days) ∧
          (lastOrdinal < monday.ordinal + 6 → datesOfWeek monday = .error .dateOutOfRange)) ∧
      ∃! monday : Date, monday.isMonday = true ∧ monday.ordinal ≤ today.ordinal ∧
        today.ordinal ≤ monday.ordinal + 6 := by
  refine ⟨fun _ => CivilDate.existsUnique_date_iff, fun _ => nextWeekStart_eq_ok_iff,
    nextWeekStart_eq_error_iff, fun monday hmonday => ?_, existsUnique_monday today⟩
  exact ⟨readWeekStart_iso hmonday, datesOfWeek_isWeek hmonday, datesOfWeek_eq_error⟩

/-- The week after the 22nd of February 2024 has the leap day of that year in its middle. -/
theorem weeks_tile_calendar_leap_day :
    ∃ today monday days, Date.civil today = ⟨2024, 2, 22⟩ ∧ Date.civil monday = ⟨2024, 2, 26⟩ ∧
      nextWeekStart today = .ok monday ∧ readWeekStart (.text monday.iso) = .ok monday ∧
      datesOfWeek monday = .ok days ∧ IsWeek monday days := by
  obtain ⟨-, hok, -, hweeks, -⟩ := weeks_tile_calendar ⟨738938, by decide, by decide⟩
  have hmonday : IsNextMonday ⟨738938, by decide, by decide⟩ ⟨738942, by decide, by decide⟩ :=
    ⟨by decide, by decide, by decide⟩
  obtain ⟨hread, hweek, -⟩ := hweeks _ hmonday.isMonday
  obtain ⟨days, hdays, his⟩ := hweek (by decide)
  exact ⟨_, _, days, by decide, by decide, (hok _).mpr hmonday, hread, hdays, his⟩

end Date

end MealRota
