import Mathlib.Algebra.GroupWithZero.Nat
import Mathlib.Order.Monotone.Basic
import MealRota.Calendar.Date

/-!
# MealRota.Proofs.Gregorian

Days by year, month and day of the month.  The days of the calendar are those that exist by
its rules, one for each; and the day with the next ordinal number is the next one by its rules,
also at the end of a month, of a February and of a year.

* `yearAndDay_spec`, `yearAndDay_unique` — the year of a day, and the day within it;
* `splitDay_spec`, `splitDay_take` — the same for the months of a year;
* `CivilDate.existsUnique_date_iff` — the days of the calendar;
* `Date.civil_succ` — the day after.
-/

namespace MealRota

/-! ## years

A year is counted by the periods of the calendar that precede it: four centuries, centuries,
four years, and years. -/

section

variable {year year' day day' : Nat}

/-- How many days a year has. -/
def yearLength (year : Nat) : Nat := if isLeapYear year then 366 else 365

theorem sum_monthLengths (year : Nat) :
    (monthLengths (isLeapYear year)).sum = yearLength year := by
  unfold yearLength
  cases isLeapYear year <;> rfl

section

variable {a b c d : Nat} (hyear : year = 400 * a + 100 * b + 4 * c + d + 1) (hb : b < 4)
  (hc : c < 25) (hd : d < 4)

include hyear hb hc hd

/-- The days of the periods that precede a year. -/
theorem daysBeforeYear_periods :
    daysBeforeYear year = 146097 * a + 36524 * b + 1461 * c + 365 * d := by
  have hfour : (year - 1) / 4 = 100 * a + 25 * b + c := by omega
  have hcentury : (year - 1) / 100 = 4 * a + b := by omega
  have hfourCenturies : (year - 1) / 400 = a := by omega
  rw [daysBeforeYear, hfour, hcentury, hfourCenturies]
  omega

/-- The last of four years is a leap year, unless it ends one of the first three centuries. -/
theorem isLeapYear_periods : isLeapYear year = true ↔ d = 3 ∧ (c = 24 → b = 3) := by
  simp only [isLeapYear, Bool.and_eq_true, Bool.or_eq_true, bne_iff_ne, decide_eq_true_eq]
  omega

end

theorem exists_periods (h : 0 < year) :
    ∃ a b c d, year = 400 * a + 100 * b + 4 * c + d + 1 ∧ b < 4 ∧ c < 25 ∧ d < 4 :=
  ⟨(year - 1) / 400, (year - 1) % 400 / 100, (year - 1) % 100 / 4, (year - 1) % 4,
    by omega, by omega, by omega, by omega⟩

/-- The days of a year come after those before it. -/
theorem daysBeforeYear_succ (h : 0 < year) :
    daysBeforeYear (year + 1) = daysBeforeYear year + yearLength year := by
  obtain ⟨a, b, c, d, hyear, hb, hc, hd⟩ := exists_periods h
  have hleap := isLeapYear_periods hyear hb hc hd
  rw [daysBeforeYear_periods hyear hb hc hd, yearLength]
  -- the year after is the next one of its period, or the first one of the next period
  by_cases hone : d < 3
  · have hnext : daysBeforeYear (year + 1) =
        146097 * a + 36524 * b + 1461 * c + 365 * (d + 1) :=
      daysBeforeYear_periods (by omega) hb hc (by omega)
    grind
  · by_cases hfour : c < 24
    · have hnext : daysBeforeYear (year + 1) =
          146097 * a + 36524 * b + 1461 * (c + 1) + 365 * 0 :=
        daysBeforeYear_periods (by omega) hb (by omega) (by omega)
      grind
    · by_cases hcentury : b < 3
      · have hnext : daysBeforeYear (year + 1) =
            146097 * a + 36524 * (b + 1) + 1461 * 0 + 365 * 0 :=
          daysBeforeYear_periods (by omega) (by omega) (by omega) (by omega)
        grind
      · have hnext : daysBeforeYear (year + 1) =
            146097 * (a + 1) + 36524 * 0 + 1461 * 0 + 365 * 0 :=
          daysBeforeYear_periods (by omega) (by omega) (by omega) (by omega)
        grind

theorem daysBeforeYear_mono : Monotone daysBeforeYear := by
  refine monotone_nat_of_le_succ fun year => ?_
  rcases Nat.eq_zero_or_pos year with rfl | hpos
  · decide
  · rw [daysBeforeYear_succ hpos]
    exact Nat.le_add_right _ _

/-- The calendar ends with its last year. -/
theorem daysBeforeYear_lastYear : daysBeforeYear (lastYear + 1) = lastOrdinal := by decide

/-- Days of later years are beyond the calendar. -/
theorem le_lastYear (h : daysBeforeYear year < lastOrdinal) : year ≤ lastYear := by
  by_contra hover
  have hmono : daysBeforeYear (lastYear + 1) ≤ daysBeforeYear year :=
    daysBeforeYear_mono (Nat.lt_of_not_le hover)
  rw [daysBeforeYear_lastYear] at hmono
  omega

/-- Days of two years that have the same ordinal number are the same day of the same year. -/
theorem year_unique (hyear : 0 < year) (hyear' : 0 < year') (hpos : 0 < day)
    (hle : day ≤ yearLength year) (hpos' : 0 < day') (hle' : day' ≤ yearLength year')
    (h : daysBeforeYear year + day = daysBeforeYear year' + day') : year = year' ∧ day = day' := by
  have hnext := daysBeforeYear_succ hyear
  have hnext' := daysBeforeYear_succ hyear'
  rcases Nat.lt_trichotomy year year' with hlt | rfl | hgt
  · have hmono : daysBeforeYear (year + 1) ≤ daysBeforeYear year' := daysBeforeYear_mono hlt
    omega
  · exact ⟨rfl, by omega⟩
  · have hmono : daysBeforeYear (year' + 1) ≤ daysBeforeYear year := daysBeforeYear_mono hgt
    omega

/-- The year of a day, and the day within it, are those that have the ordinal number. -/
theorem yearAndDay_spec {ordinal : Nat} (h : 0 < ordinal) :
    0 < (yearAndDay ordinal).1 ∧ 0 < (yearAndDay ordinal).2 ∧
      (yearAndDay ordinal).2 ≤ yearLength (yearAndDay ordinal).1 ∧
      daysBeforeYear (yearAndDay ordinal).1 + (yearAndDay ordinal).2 = ordinal := by
  unfold yearAndDay
  simp only
  -- the day by the periods that precede it, the last one being that of days
  generalize hn : ordinal - 1 = n
  generalize ha : n / 146097 = a
  generalize hr400 : n % 146097 = r400
  generalize hb : r400 / 36524 = b
  generalize hr100 : r400 % 36524 = r100
  generalize hc : r100 / 1461 = c
  generalize hr4 : r100 % 1461 = r4
  generalize hd : r4 / 365 = d
  generalize he : r4 % 365 = e
  have hordinal : ordinal = 146097 * a + 36524 * b + 1461 * c + 365 * d + e + 1 := by omega
  by_cases hlast : b = 4 ∨ d = 4
  · -- the day left over ends four centuries, or else four years
    rw [if_pos hlast]
    simp only
    generalize hyear : 400 * a + 100 * b + 4 * c + d = year
    obtain ⟨b', c', hb', hc', hlast', hyear', hordinal'⟩ : ∃ b' c', b' < 4 ∧ c' < 25 ∧
        (c' = 24 → b' = 3) ∧ year = 400 * a + 100 * b' + 4 * c' + 3 + 1 ∧
        ordinal = 146097 * a + 36524 * b' + 1461 * c' + 365 * 3 + 366 := by
      by_cases hcentury : b = 4
      · exact ⟨3, 24, by omega, by omega, by omega, by omega, by omega⟩
      · exact ⟨b, c, by omega, by omega, by omega, by omega, by omega⟩
    have hleap := (isLeapYear_periods hyear' hb' hc' (by omega)).mpr ⟨rfl, hlast'⟩
    have hdays := daysBeforeYear_periods hyear' hb' hc' (by omega)
    rw [yearLength, if_pos hleap]
    omega
  · have hdays := daysBeforeYear_periods (a := a) (b := b) (c := c) (d := d) rfl (by omega)
      (by omega) (by omega)
    rw [if_neg hlast, hdays, yearLength]
    simp only
    split <;> omega

/-- A day of a year is found in this year. -/
theorem yearAndDay_unique (hyear : 0 < year) (hpos : 0 < day) (hle : day ≤ yearLength year) :
    yearAndDay (daysBeforeYear year + day) = (year, day) := by
  obtain ⟨hyear', hpos', hle', hordinal⟩ :=
    yearAndDay_spec (Nat.add_pos_right (daysBeforeYear year) hpos)
  obtain ⟨hsame, hday⟩ := year_unique hyear' hyear hpos' hle' hpos hle hordinal
  exact Prod.ext hsame hday

end

/-! ## months -/

section

variable {lengths : List Nat} {i day length : Nat}

theorem sum_take_succ (h : lengths[i]? = some length) :
    (lengths.take (i + 1)).sum = (lengths.take i).sum + length := by
  simp [List.take_add_one, h]

theorem sum_take_add_le (h : lengths[i]? = some length) :
    (lengths.take i).sum + length ≤ lengths.sum := by
  have hsplit := congrArg List.sum (List.take_append_drop (i + 1) lengths)
  rw [List.sum_append, sum_take_succ h] at hsplit
  omega

/-- The period of a day, and the day within it, are those that make up its number. -/
theorem splitDay_spec (hpos : 0 < day) (hle : day ≤ lengths.sum) :
    ∃ length, lengths[(splitDay lengths day).1]? = some length ∧
      0 < (splitDay lengths day).2 ∧ (splitDay lengths day).2 ≤ length ∧
      (lengths.take (splitDay lengths day).1).sum + (splitDay lengths day).2 = day := by
  induction lengths generalizing day with
  | nil => simp at hle; omega
  | cons first lengths ih =>
      rw [List.sum_cons] at hle
      unfold splitDay
      by_cases hfirst : day ≤ first
      · rw [if_pos hfirst]
        exact ⟨first, rfl, hpos, hfirst, by simp⟩
      · rw [if_neg hfirst]
        have hlate : 0 < day - first := by omega
        obtain ⟨length, hget, hpos', hle', hsum⟩ := ih hlate (by omega)
        refine ⟨length, hget, hpos', hle', ?_⟩
        simp only [List.take_succ_cons, List.sum_cons]
        omega

/-- A day of a period is found in this period. -/
theorem splitDay_take (hget : lengths[i]? = some length) (hpos : 0 < day) (hle : day ≤ length) :
    splitDay lengths ((lengths.take i).sum + day) = (i, day) := by
  induction lengths generalizing i with
  | nil => simp at hget
  | cons first lengths ih =>
      cases i with
      | zero =>
          obtain rfl : first = length := Option.some.inj hget
          simp [splitDay, hle]
      | succ i =>
          have hrest := ih (i := i) hget
          have hlate : ¬ first + (lengths.take i).sum + day ≤ first := by omega
          have hsub : first + (lengths.take i).sum + day - first = (lengths.take i).sum + day := by
            omega
          simp [splitDay, hlate, hsub, hrest]

end

theorem daysBeforeMonth_eq (leap : Bool) (month : Nat) :
    daysBeforeMonth leap month = ((monthLengths leap).take (month - 1)).sum :=
  List.sum_eq_foldl_nat.symm

/-! ## days -/

namespace CivilDate

variable {c : CivilDate} {d e : Date}

/-- How many days the month of a day has. -/
def monthLength (c : CivilDate) : Nat := (monthLengths (isLeapYear c.year)).getD (c.month - 1) 0

/-- The calendar has the day. -/
structure InCalendar (c : CivilDate) : Prop where
  year : 1 ≤ c.year ∧ c.year ≤ lastYear
  month : 1 ≤ c.month ∧ c.month ≤ 12
  day : 1 ≤ c.day ∧ c.day ≤ c.monthLength

/-- The day after: the next one of the month, or else the first one of the next month, or else
the first one of the next year. -/
def next (c : CivilDate) : CivilDate :=
  if c.day < c.monthLength then ⟨c.year, c.month, c.day + 1⟩
  else if c.month < 12 then ⟨c.year, c.month + 1, 1⟩
  else ⟨c.year + 1, 1, 1⟩

/-- Every month has a length. -/
theorem getElem?_monthLengths (h : 1 ≤ c.month ∧ c.month ≤ 12) :
    (monthLengths (isLeapYear c.year))[c.month - 1]? = some c.monthLength := by
  have hin : c.month - 1 < (monthLengths (isLeapYear c.year)).length := by
    simp [monthLengths]
    omega
  simp [monthLength, hin]

theorem monthLength_pos (h : 1 ≤ c.month ∧ c.month ≤ 12) : 1 ≤ c.monthLength := by
  have hall : ∀ leap, ∀ length ∈ monthLengths leap, 1 ≤ length := by decide
  exact hall _ _ (List.mem_of_getElem? (getElem?_monthLengths h))

/-! ### ordinal numbers -/

/-- The number of a day within its year. -/
theorem yearDay_le (h : c.InCalendar) :
    0 < daysBeforeMonth (isLeapYear c.year) c.month + c.day ∧
      daysBeforeMonth (isLeapYear c.year) c.month + c.day ≤ yearLength c.year := by
  have hsum := sum_take_add_le (getElem?_monthLengths h.month)
  have hday := h.day
  rw [sum_monthLengths] at hsum
  rw [daysBeforeMonth_eq]
  omega

/-- A day is found by its ordinal number. -/
theorem civil_of_ordinal (h : c.InCalendar) (hd : d.ordinal = c.ordinal) : d.civil = c := by
  obtain ⟨hpos, hle⟩ := c.yearDay_le h
  have hyear : yearAndDay d.ordinal =
      (c.year, daysBeforeMonth (isLeapYear c.year) c.month + c.day) := by
    rw [hd, ordinal, Nat.add_assoc]
    exact yearAndDay_unique h.year.1 hpos hle
  have hmonth : splitDay (monthLengths (isLeapYear c.year))
      (daysBeforeMonth (isLeapYear c.year) c.month + c.day) = (c.month - 1, c.day) := by
    rw [daysBeforeMonth_eq]
    exact splitDay_take (getElem?_monthLengths h.month) h.day.1 h.day.2
  have hback : c.month - 1 + 1 = c.month := Nat.sub_add_cancel h.month.1
  simp only [Date.civil, hyear, hmonth, hback]

/-- The ordinal number of a day is one of the calendar. -/
theorem ordinal_le (h : c.InCalendar) : 0 < c.ordinal ∧ c.ordinal ≤ lastOrdinal := by
  obtain ⟨hpos, hle⟩ := c.yearDay_le h
  have hnext := daysBeforeYear_succ h.year.1
  have hlast : daysBeforeYear (c.year + 1) ≤ daysBeforeYear (lastYear + 1) :=
    daysBeforeYear_mono (Nat.succ_le_succ h.year.2)
  rw [daysBeforeYear_lastYear] at hlast
  unfold ordinal
  omega

/-- The next day has the next ordinal number. -/
theorem ordinal_next (h : c.InCalendar) : c.next.ordinal = c.ordinal + 1 := by
  have hday := h.day
  have hget := getElem?_monthLengths h.month
  have hback : c.month - 1 + 1 = c.month := Nat.sub_add_cancel h.month.1
  have hmonth := sum_take_succ hget
  rw [hback] at hmonth
  unfold next ordinal
  simp only [daysBeforeMonth_eq]
  split
  · simp only
    omega
  · split
    · simp only [Nat.add_sub_cancel]
      omega
    · -- the last month of a year ends with the year
      have htwelve : c.month = 12 := by have := h.month; omega
      have hall : (monthLengths (isLeapYear c.year)).take 12 = monthLengths (isLeapYear c.year) :=
        rfl
      have hnext := daysBeforeYear_succ h.year.1
      rw [htwelve] at hmonth ⊢
      rw [hall, sum_monthLengths] at hmonth
      simp only [Nat.sub_self, List.take_zero, List.sum_nil]
      omega

/-- The next day is one of the calendar, unless the calendar ends. -/
theorem next_inCalendar (h : c.InCalendar) (hlast : c.ordinal < lastOrdinal) :
    c.next.InCalendar := by
  have hyear := h.year
  have hmonth := h.month
  by_cases hday : c.day < c.monthLength
  · rw [next, if_pos hday]
    exact ⟨hyear, hmonth, Nat.le_add_left 1 _, hday⟩
  · by_cases htwelve : c.month < 12
    · rw [next, if_neg hday, if_pos htwelve]
      have hnext : 1 ≤ c.month + 1 ∧ c.month + 1 ≤ 12 := by omega
      exact ⟨hyear, hnext, Nat.le_refl 1, monthLength_pos hnext⟩
    · have hordinal := c.ordinal_next h
      rw [next, if_neg hday, if_neg htwelve] at hordinal ⊢
      have hfirst : 1 ≤ 1 ∧ 1 ≤ 12 := by decide
      refine ⟨⟨Nat.le_add_left 1 _, le_lastYear ?_⟩, hfirst, Nat.le_refl 1, monthLength_pos hfirst⟩
      unfold ordinal at hordinal hlast
      simp only at hordinal ⊢
      omega

end CivilDate

namespace Date

variable {d e : Date}

/-- Every ordinal number of the calendar is that of a day. -/
theorem exists_civil (d : Date) : ∃ c : CivilDate, c.InCalendar ∧ c.ordinal = d.ordinal := by
  obtain ⟨year, day, hyear, hpos, hle, hordinal⟩ : ∃ year day, 0 < year ∧ 0 < day ∧
      day ≤ yearLength year ∧ daysBeforeYear year + day = d.ordinal :=
    ⟨_, _, yearAndDay_spec d.pos⟩
  rw [← sum_monthLengths] at hle
  obtain ⟨i, day', length, hget, hpos', hle', hday⟩ : ∃ i day' length,
      (monthLengths (isLeapYear year))[i]? = some length ∧ 0 < day' ∧ day' ≤ length ∧
        ((monthLengths (isLeapYear year)).take i).sum + day' = day :=
    ⟨_, _, splitDay_spec hpos hle⟩
  have hmonth : i < 12 := (List.getElem?_eq_some_iff.mp hget).1
  have hend : year ≤ lastYear := le_lastYear (by have := d.le_last; omega)
  refine ⟨⟨year, i + 1, day'⟩, ⟨⟨hyear, hend⟩, ⟨Nat.le_add_left 1 i, hmonth⟩, hpos', ?_⟩, ?_⟩
  · simpa [CivilDate.monthLength, hget] using hle'
  · simp only [CivilDate.ordinal, daysBeforeMonth_eq, Nat.add_sub_cancel]
    omega

/-- Year, month and day of a day are those of the day with its ordinal number. -/
theorem civil_spec (d : Date) : d.civil.InCalendar ∧ d.civil.ordinal = d.ordinal := by
  obtain ⟨c, hc, hordinal⟩ := d.exists_civil
  rw [CivilDate.civil_of_ordinal hc hordinal.symm]
  exact ⟨hc, hordinal⟩

/-- A day is told by its year, month and day of the month. -/
theorem civil_injective (h : d.civil = e.civil) : d = e :=
  Date.ext (by rw [← d.civil_spec.2, h, e.civil_spec.2])

/-- The day after a day is the next one by the rules of the calendar. -/
theorem civil_succ (h : e.ordinal = d.ordinal + 1) : e.civil = d.civil.next := by
  obtain ⟨hd, hordinal⟩ := d.civil_spec
  have hlast := e.le_last
  refine CivilDate.civil_of_ordinal (CivilDate.next_inCalendar hd (by omega)) ?_
  rw [CivilDate.ordinal_next hd, hordinal, h]

end Date

/-- The days of the calendar are those of the years 1 to 9999, one for each. -/
theorem CivilDate.existsUnique_date_iff {c : CivilDate} :
    (∃! d : Date, d.civil = c) ↔ c.InCalendar := by
  constructor
  · rintro ⟨d, rfl, -⟩
    exact d.civil_spec.1
  · intro hc
    obtain ⟨hpos, hle⟩ := CivilDate.ordinal_le hc
    have hcivil := CivilDate.civil_of_ordinal (d := ⟨c.ordinal, hpos, hle⟩) hc rfl
    exact ⟨_, hcivil, fun e he => Date.civil_injective (he.trans hcivil.symm)⟩

end MealRota
