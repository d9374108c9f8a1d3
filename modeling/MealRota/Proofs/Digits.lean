import Mathlib.Algebra.GroupWithZero.Nat
import Mathlib.Data.List.TakeDrop
import MealRota.Number.Numeral

/-!
# MealRota.Proofs.Digits

Decimal digits: what number they stand for, and how they are told from other characters.

* `digitsValue_toDigits` — the digits of a number stand for it;
* `AllDigits` — lists of digits and nothing else.
-/

namespace MealRota

theorem digitsValue_eq (l : List Char) : digitsValue l = Nat.ofDigitChars 10 l 0 := rfl

@[simp] theorem digitsValue_toDigits (n : Nat) : digitsValue (Nat.toDigits 10 n) = n :=
  Nat.ofDigitChars_ten_toDigits

/-- Zeros in front do not count. -/
@[simp] theorem digitsValue_zeros_append (k : Nat) (l : List Char) :
    digitsValue (List.replicate k '0' ++ l) = digitsValue l := by
  rw [digitsValue_eq, Nat.ofDigitChars_append, Nat.ofDigitChars_replicate_zero, Nat.mul_zero,
    ← digitsValue_eq]

/-- Zeros at the end are powers of ten. -/
theorem digitsValue_append_zeros (l : List Char) (k : Nat) :
    digitsValue (l ++ List.replicate k '0') = digitsValue l * 10 ^ k := by
  rw [digitsValue_eq, Nat.ofDigitChars_append, Nat.ofDigitChars_replicate_zero, ← digitsValue_eq,
    Nat.mul_comm]

/-- Whether all characters of a list are digits. -/
def AllDigits (l : List Char) : Prop := ∀ c ∈ l, c.isDigit = true

namespace AllDigits

theorem toDigits (n : Nat) : AllDigits (Nat.toDigits 10 n) := fun _ hc =>
  Nat.isDigit_of_mem_toDigits (by decide) (by decide) hc

theorem zeros (k : Nat) : AllDigits (List.replicate k '0') := by
  intro c hc
  rw [List.eq_of_mem_replicate hc]
  decide

theorem append {l m : List Char} (hl : AllDigits l) (hm : AllDigits m) : AllDigits (l ++ m) :=
  fun c hc => (List.mem_append.mp hc).elim (hl c) (hm c)

theorem take {l : List Char} (h : AllDigits l) (n : Nat) : AllDigits (l.take n) :=
  fun c hc => h c (List.mem_of_mem_take hc)

theorem drop {l : List Char} (h : AllDigits l) (n : Nat) : AllDigits (l.drop n) :=
  fun c hc => h c (List.mem_of_mem_drop hc)

/-- Digits are read up to the first character that is none. -/
theorem span {l rest : List Char} (hl : AllDigits l)
    (hrest : ∀ c ∈ rest.head?, c.isDigit = false) :
    (l ++ rest).span Char.isDigit = (l, rest) := by
  rw [List.span_eq_takeWhile_dropWhile, List.takeWhile_append_of_pos hl,
    List.dropWhile_append_of_pos hl]
  cases rest with
  | nil => rw [List.takeWhile_nil, List.dropWhile_nil, List.append_nil]
  | cons c rest =>
      have hc : ¬ c.isDigit = true := Bool.eq_false_iff.mp (hrest c rfl)
      rw [List.takeWhile_cons_of_neg hc, List.dropWhile_cons_of_neg hc, List.append_nil]

theorem span_all {l : List Char} (h : AllDigits l) : l.span Char.isDigit = (l, []) := by
  have hspan : (l ++ []).span Char.isDigit = (l, []) := h.span (by simp)
  rwa [List.append_nil] at hspan

end AllDigits

/-- The digits of a positive number do not start with a zero. -/
theorem toDigits_eq_cons {n : Nat} (h : 0 < n) :
    ∃ c l, Nat.toDigits 10 n = c :: l ∧ c ≠ '0' := by
  induction n using Nat.strongRecOn with
  | ind n ih =>
      rw [Nat.toDigits_eq_if (by decide)]
      split
      · exact ⟨_, _, rfl, fun hzero => Nat.ne_of_gt h (Nat.digitChar_eq_zero.mp hzero)⟩
      · obtain ⟨c, l, hl, hc⟩ := ih (n / 10) (by omega) (by omega)
        exact ⟨c, l ++ [(n % 10).digitChar], by rw [hl, List.cons_append], hc⟩

end MealRota
