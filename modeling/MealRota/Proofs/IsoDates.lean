import Mathlib.Data.String.Basic
import MealRota.Proofs.Digits
import MealRota.Proofs.Gregorian
import MealRota.Reading

/-!
# MealRota.Proofs.IsoDates

Days written in ISO form and read back.

* `Date.takeDigits?_padLeft` — a number of fixed width;
* `Date.ofCalendar_civil` — year, month and day of the month of a day name it;
* `Date.ofIso_iso` — what is read is the day that was written.
-/

namespace MealRota

/-! ## numbers of fixed width -/

section

variable {width n : Nat}

theorem length_padLeft (h : n < 10 ^ width) (hwidth : 0 < width) :
    (Layout.padLeft width (Nat.toDigits 10 n)).length = width := by
  have hle := (Nat.length_toDigits_le_iff (by decide) hwidth).mpr h
  simp [Layout.padLeft]
  omega

theorem AllDigits.padLeft (width n : Nat) : AllDigits (Layout.padLeft width (Nat.toDigits 10 n)) :=
  (AllDigits.zeros _).append (AllDigits.toDigits n)

/-- Each digit is one byte long. -/
theorem AllDigits.utf8Len_append {l : List Char} (h : AllDigits l) (rest : List Char) :
    String.utf8Len (l ++ rest) = l.length + String.utf8Len rest := by
  induction l with
  | nil => simp
  | cons c l ih =>
      have hc : c.utf8Size = 1 := by
        have hdigit : c.isDigit = true := h c List.mem_cons_self
        simp only [Char.isDigit, Bool.and_eq_true, decide_eq_true_eq] at hdigit
        rw [Char.utf8Size_eq_one_iff]
        exact UInt32.le_trans hdigit.2 (by decide)
      rw [List.cons_append, String.utf8Len, ih fun d hd => h d (List.mem_cons_of_mem c hd), hc,
        List.length_cons]
      omega

namespace Date

/-- A number of fixed width is read, whatever comes after it. -/
theorem takeDigits?_padLeft (h : n < 10 ^ width) (hwidth : 0 < width) (rest : List Char) :
    takeDigits? width (Layout.padLeft width (Nat.toDigits 10 n) ++ rest) = some (n, rest) := by
  have hlength := length_padLeft h hwidth
  have hdigits : (Layout.padLeft width (Nat.toDigits 10 n)).all Char.isDigit = true :=
    List.all_eq_true.mpr (AllDigits.padLeft width n)
  have hvalue : digitsValue (Layout.padLeft width (Nat.toDigits 10 n)) = n := by
    simp [Layout.padLeft]
  unfold takeDigits?
  rw [List.take_left' hlength, List.drop_left' hlength]
  simp [hlength, hdigits, hvalue]

end Date

end

namespace Date

/-! ## reading a day -/

section

variable {c : CivilDate}

/-- Year, month and day of the month in ISO form. -/
def isoChars (c : CivilDate) : List Char :=
  Layout.padLeft 4 (Nat.toDigits 10 c.year) ++ '-' ::
    (Layout.padLeft 2 (Nat.toDigits 10 c.month) ++ '-' ::
      Layout.padLeft 2 (Nat.toDigits 10 c.day))

theorem toList_iso (d : Date) : d.iso.toList = isoChars d.civil := by
  simp [iso, isoChars]

theorem calendarFields?_iso (hmonth : c.month < 100) (hday : c.day < 100) (year : Nat) :
    calendarFields? year true (Layout.padLeft 2 (Nat.toDigits 10 c.month) ++ '-' ::
      Layout.padLeft 2 (Nat.toDigits 10 c.day)) = some (.calendar year c.month c.day) := by
  have hlast : takeDigits? 2 (Layout.padLeft 2 (Nat.toDigits 10 c.day)) = some (c.day, []) := by
    have hread := takeDigits?_padLeft (show c.day < 10 ^ 2 from hday) (by decide) []
    rwa [List.append_nil] at hread
  unfold calendarFields?
  rw [takeDigits?_padLeft hmonth (by decide)]
  simp [afterDash?, hlast]

/-- The fields of the form are the year, the month and the day of the month. -/
theorem isoFields?_isoChars (hyear : c.year < 10000) (hmonth : c.month < 100)
    (hday : c.day < 100) : isoFields? (isoChars c) = some (.calendar c.year c.month c.day) := by
  have hfields := calendarFields?_iso hmonth hday c.year
  -- the month begins with a digit, which is not the letter of a week date
  obtain ⟨first, second, htwo⟩ : ∃ first second,
      Layout.padLeft 2 (Nat.toDigits 10 c.month) = [first, second] :=
    List.length_eq_two.mp (length_padLeft hmonth (by decide))
  have hfirst : first ≠ 'W' := by
    have hdigit := AllDigits.padLeft 2 c.month first (by simp [htwo])
    rintro rfl
    exact absurd hdigit (by decide)
  unfold isoFields? isoChars
  rw [takeDigits?_padLeft hyear (by decide)]
  rw [htwo, List.cons_append, List.cons_append, List.nil_append] at hfields
  rw [htwo]
  simp [hfirst, hfields]

/-- The form of a day has ten bytes. -/
theorem utf8Len_isoChars (hyear : c.year < 10000) (hmonth : c.month < 100) (hday : c.day < 100) :
    String.utf8Len (isoChars c) = 10 := by
  have hlast := (AllDigits.padLeft 2 c.day).utf8Len_append []
  rw [List.append_nil, length_padLeft hday (by decide)] at hlast
  rw [isoChars, (AllDigits.padLeft 4 c.year).utf8Len_append, String.utf8Len,
    (AllDigits.padLeft 2 c.month).utf8Len_append, String.utf8Len, hlast,
    length_padLeft hyear (by decide), length_padLeft hmonth (by decide)]
  rfl

theorem monthLength_lt (h : 1 ≤ c.month ∧ c.month ≤ 12) : c.monthLength < 32 := by
  have hall : ∀ leap, ∀ length ∈ monthLengths leap, length < 32 := by decide
  exact hall _ _ (List.mem_of_getElem? (CivilDate.getElem?_monthLengths h))

end

variable (d : Date)

/-- Year, month and day of the month of a day name it. -/
theorem ofCalendar_civil : ofCalendar d.civil.year d.civil.month d.civil.day = .ok d := by
  obtain ⟨hin, hordinal⟩ := d.civil_spec
  obtain ⟨hyear, hmonth, hday⟩ := hin
  have hnamed : ofOrdinal? (CivilDate.ordinal ⟨d.civil.year, d.civil.month, d.civil.day⟩) =
      some d := ofOrdinal?_eq_some_iff.mpr hordinal.symm
  unfold ofCalendar
  rw [if_neg (by omega), CivilDate.getElem?_monthLengths hmonth]
  simp only
  rw [if_neg (by omega), if_neg (by omega), hnamed]

/-- What is read is the day that was written. -/
theorem ofIso_iso : ofIso d.iso = .ok d := by
  obtain ⟨hyear, hmonth, hday⟩ := d.civil_spec.1
  have hlast : lastYear = 9999 := rfl
  have hshort := monthLength_lt hmonth
  have hsize : d.iso.utf8ByteSize = 10 := by
    rw [← String.ofList_toList (s := d.iso), toList_iso, String.utf8ByteSize_ofList]
    exact utf8Len_isoChars (by omega) (by omega) (by omega)
  unfold ofIso
  rw [if_pos (Or.inr (Or.inr hsize)), toList_iso,
    isoFields?_isoChars (by omega) (by omega) (by omega)]
  exact d.ofCalendar_civil

end Date

theorem readDate_iso (d : Date) : readDate (.text d.iso) = .ok d := by
  simp [readDate, Date.ofValue, d.ofIso_iso, Except.mapError]

/-- A Monday is read as the start of a week from its ISO form. -/
theorem readWeekStart_iso {d : Date} (h : d.isMonday = true) :
    readWeekStart (.text d.iso) = .ok d := by
  unfold readWeekStart asWeekStart
  rw [readDate_iso]
  simp [Except.bind, h]

end MealRota
