import Mathlib.Data.Int.Log
import Mathlib.Data.Rat.Floor
import Mathlib.Tactic.FieldSimp
import Mathlib.Tactic.Linarith
import Mathlib.Tactic.NormNum
import Mathlib.Tactic.Positivity
import Mathlib.Tactic.Ring

/-!
# MealRota.Proofs.Rounding

Rounding to a double depends on the number alone, and not on the mantissa and exponent in which
it comes.

* `Cuts` — a mantissa with a round bit and a sticky bit as the cut of a rational number, of which
  there is one;
* `lastPlace` — the place of the last bit of the double that a number is rounded to;
* `RoundsTo` — what a number is rounded to; `RoundsTo.unique`, `RoundsTo.of_mul` and
  `RoundsTo.of_div`.

The core library rounds a mantissa after cutting it at a place read off the mantissa itself.  If
the mantissa is no coarser than the double will be, that place is the last place of the number, so
the bits left are those of the number's own cut.
-/

namespace MealRota

open Float.Model Float.Model.UnpackedFloat

/-! ## cut mantissas -/

/-- A number cut to a whole one, with the two bits that say how much is cut off. -/
structure Cuts (em : ExtendedMantissa) (w : ℚ) : Prop where
  low : em.mantissa ≤ w
  high : w < em.mantissa + 1
  round : em.roundBit = true ↔ em.mantissa + 1 / 2 ≤ w
  sticky : em.stickyBit = true ↔ w ≠ em.mantissa ∧ w ≠ em.mantissa + 1 / 2

namespace Cuts

variable {em em' : ExtendedMantissa} {w : ℚ}

/-- There is one way to cut a number. -/
theorem unique (h : Cuts em w) (h' : Cuts em' w) : em = em' := by
  obtain ⟨m, round, sticky⟩ := em
  obtain ⟨m', round', sticky'⟩ := em'
  obtain ⟨hlow, hhigh, hround, hsticky⟩ := h
  obtain ⟨hlow', hhigh', hround', hsticky'⟩ := h'
  simp only at hlow hhigh hround hsticky hlow' hhigh' hround' hsticky'
  have hm : m = m' := by
    have hle : (m : ℚ) < m' + 1 := hlow.trans_lt hhigh'
    have hge : (m' : ℚ) < m + 1 := hlow'.trans_lt hhigh
    have hle : m < m' + 1 := by exact_mod_cast hle
    have hge : m' < m + 1 := by exact_mod_cast hge
    omega
  subst hm
  rw [Bool.eq_iff_iff.mpr (hround.trans hround'.symm),
    Bool.eq_iff_iff.mpr (hsticky.trans hsticky'.symm)]

theorem exact (m : Nat) : Cuts (.ofMantissaAndAccuracy m .exact) m where
  low := le_refl _
  high := by simp [ExtendedMantissa.ofMantissaAndAccuracy]
  round := by simp [ExtendedMantissa.ofMantissaAndAccuracy]
  sticky := by simp [ExtendedMantissa.ofMantissaAndAccuracy]

/-- A mantissa with a fraction beside it. -/
theorem fraction (m : Nat) {n d : Nat} (h : n < d) :
    Cuts (.ofMantissaAndAccuracy m (accuracyOfFraction n d)) (m + n / d) := by
  have hd : (0 : ℚ) < d := by exact_mod_cast Nat.zero_lt_of_lt h
  have hround : (m : ℚ) + 1 / 2 ≤ m + n / d ↔ d ≤ 2 * n := by
    rw [add_le_add_iff_left, div_le_div_iff₀ two_pos hd, one_mul, mul_comm (n : ℚ)]
    exact_mod_cast Iff.rfl
  have hzero : (m : ℚ) + n / d = m ↔ n = 0 := by
    rw [add_eq_left, div_eq_zero_iff, or_iff_left hd.ne']
    exact_mod_cast Iff.rfl
  have hhalf : (m : ℚ) + n / d = m + 1 / 2 ↔ 2 * n = d := by
    rw [add_right_inj, div_eq_div_iff hd.ne' two_ne_zero, one_mul, mul_comm (n : ℚ)]
    exact_mod_cast Iff.rfl
  have hcut : ExtendedMantissa.ofMantissaAndAccuracy m (accuracyOfFraction n d) =
      ⟨m, decide (d ≤ 2 * n), decide (n ≠ 0 ∧ 2 * n ≠ d)⟩ := by
    unfold accuracyOfFraction ExtendedMantissa.ofMantissaAndAccuracy
    grind [Nat.compare_eq_lt, Nat.compare_eq_eq, Nat.compare_eq_gt]
  rw [hcut]
  refine ⟨?_, ?_, ?_, ?_⟩
  · exact le_add_of_nonneg_right (by positivity)
  · rw [add_lt_add_iff_left, div_lt_one hd]
    exact_mod_cast h
  · exact decide_eq_true_iff.trans hround.symm
  · exact decide_eq_true_iff.trans (and_congr hzero.symm.not hhalf.symm.not)

/-- Cutting off one more bit. -/
theorem shiftRightOne (h : Cuts em w) : Cuts em.shiftRightOne (w / 2) := by
  obtain ⟨m, round, sticky⟩ := em
  obtain ⟨hlow, hhigh, hround, hsticky⟩ := h
  simp only at hlow hhigh hround hsticky
  have hrest : (round || sticky) = true ↔ w ≠ m := by
    rw [Bool.or_eq_true, hround, hsticky]
    constructor
    · rintro (hround | hsticky)
      · intro hw
        linarith
      · exact hsticky.1
    · intro hw
      by_cases hhalf : w = m + 1 / 2
      · exact Or.inl hhalf.ge
      · exact Or.inr ⟨hw, hhalf⟩
  obtain ⟨k, rfl | rfl⟩ := Nat.even_or_odd' m
  · have hcut : ExtendedMantissa.shiftRightOne ⟨2 * k, round, sticky⟩ =
        ⟨k, false, round || sticky⟩ := by
      simp [ExtendedMantissa.shiftRightOne]
    rw [hcut]
    push_cast at hlow hhigh hrest
    refine ⟨?_, ?_, iff_of_false Bool.false_ne_true ?_, hrest.trans ⟨fun hw => ⟨?_, ?_⟩, ?_⟩⟩
    · linarith
    · linarith
    · simp only
      linarith
    · exact fun heq => hw (by linarith)
    · exact fun heq => by linarith
    · exact fun heq hw => heq.1 (by linarith)
  · have hcut : ExtendedMantissa.shiftRightOne ⟨2 * k + 1, round, sticky⟩ =
        ⟨k, true, round || sticky⟩ := by
      have hdiv : (2 * k + 1) / 2 = k := by omega
      simp [ExtendedMantissa.shiftRightOne, hdiv]
    rw [hcut]
    push_cast at hlow hhigh hrest
    refine ⟨?_, ?_, iff_of_true rfl ?_, hrest.trans ⟨fun hw => ⟨?_, ?_⟩, ?_⟩⟩
    · linarith
    · linarith
    · simp only
      linarith
    · exact fun heq => by linarith
    · exact fun heq => hw (by linarith)
    · exact fun heq hw => heq.2 (by linarith)

theorem shiftRight (h : Cuts em w) (n : Nat) : Cuts (em >>> n) (w / 2 ^ n) := by
  induction n with
  | zero =>
      rw [pow_zero, div_one]
      exact h
  | succ n ih =>
      rw [pow_succ, ← div_div]
      exact ih.shiftRightOne

end Cuts

/-! ## the place of the last bit -/

/-- Doubles have mantissas of 53 bits, and none has a bit below `2 ^ (-1074)`. -/
theorem targetExponent_binary64 (x : ℤ) : Format.binary64.targetExponent x = max (x - 53) (-1074) := rfl

/-- The power of two for which the last bit stands when a number is rounded to a double. -/
def lastPlace (v : ℚ) : ℤ := Format.binary64.targetExponent (Int.log 2 v + 1)

theorem lastPlace_eq (v : ℚ) : lastPlace v = max (Int.log 2 v - 52) (-1074) := by
  rw [lastPlace, targetExponent_binary64]
  omega

/-- A number is cut at or above its last place: the place is read off the mantissa. -/
theorem Cuts.targetExponent_eq {em : ExtendedMantissa} {v : ℚ} {e : ℤ} (hv : 0 < v)
    (h : Cuts em (v / 2 ^ e)) (he : e ≤ lastPlace v) :
    Format.binary64.targetExponent (totalExponent em.mantissa e) = lastPlace v := by
  have hpow : (0 : ℚ) < 2 ^ e := zpow_pos two_pos e
  rw [targetExponent_binary64, totalExponent]
  rw [lastPlace_eq] at he ⊢
  by_cases hm : em.mantissa = 0
  · -- the number is below the place at which it is cut
    have hlog : Int.log 2 v < e := by
      rw [← Int.lt_zpow_iff_log_lt (by decide) hv]
      have hhigh := h.high
      rw [hm, Nat.cast_zero, zero_add, div_lt_one hpow] at hhigh
      exact_mod_cast hhigh
    rw [hm, Nat.log2_zero]
    omega
  · have hlow : e + em.mantissa.log2 ≤ Int.log 2 v := by
      rw [← Int.zpow_le_iff_le_log (by decide) hv, Nat.cast_ofNat, zpow_add₀ two_ne_zero,
        zpow_natCast, ← le_div_iff₀' hpow]
      refine le_trans ?_ h.low
      exact_mod_cast Nat.log2_self_le hm
    have hhigh : Int.log 2 v < e + (em.mantissa.log2 + 1) := by
      rw [← Int.lt_zpow_iff_log_lt (by decide) hv, Nat.cast_ofNat, zpow_add₀ two_ne_zero,
        ← div_lt_iff₀' hpow]
      refine h.high.trans_le ?_
      have := Nat.lt_log2_self (n := em.mantissa)
      exact_mod_cast this
    omega

/-! ## rounding -/

/-- What a positive number is rounded to. -/
def RoundsTo (v : ℚ) (u : UnpackedFloat) : Prop :=
  ∃ m e acc, Cuts (.ofMantissaAndAccuracy m acc) (v / 2 ^ e) ∧ e ≤ lastPlace v ∧
    u = roundWithAccuracy .binary64 .positive m e acc

/-- Before rounding, a number is cut at its last place. -/
theorem shift_lastPlace {v : ℚ} {m : Nat} {e : ℤ} {acc : Accuracy} (hv : 0 < v)
    (h : Cuts (.ofMantissaAndAccuracy m acc) (v / 2 ^ e)) (he : e ≤ lastPlace v) :
    (shiftToTargetExponent .binary64 m e acc).2 = lastPlace v ∧
      Cuts (shiftToTargetExponent .binary64 m e acc).1 (v / 2 ^ lastPlace v) := by
  have hmantissa : (ExtendedMantissa.ofMantissaAndAccuracy m acc).mantissa = m := by
    cases acc with
    | exact => rfl
    | inexact o => cases o <;> rfl
  have htarget := h.targetExponent_eq hv he
  rw [hmantissa] at htarget
  unfold shiftToTargetExponent shiftToExponent
  rw [htarget]
  refine ⟨by simp only; omega, ?_⟩
  have hshift := h.shiftRight (lastPlace v - e).toNat
  rwa [div_div, ← zpow_natCast, ← zpow_add₀ two_ne_zero,
    show e + ((lastPlace v - e).toNat : ℤ) = lastPlace v by omega] at hshift

/-- A number is rounded in one way. -/
theorem RoundsTo.unique {v : ℚ} {u u' : UnpackedFloat} (hv : 0 < v) (h : RoundsTo v u)
    (h' : RoundsTo v u') : u = u' := by
  obtain ⟨m, e, acc, hcuts, he, rfl⟩ := h
  obtain ⟨m', e', acc', hcuts', he', rfl⟩ := h'
  obtain ⟨hplace, hcut⟩ := shift_lastPlace hv hcuts he
  obtain ⟨hplace', hcut'⟩ := shift_lastPlace hv hcuts' he'
  have hsame : shiftToTargetExponent .binary64 m e acc =
      shiftToTargetExponent .binary64 m' e' acc' :=
    Prod.ext (hcut.unique hcut') (hplace.trans hplace'.symm)
  unfold roundWithAccuracy
  rw [hsame]

/-! ## what is rounded -/

theorem log_mantissa {m : Nat} (hm : 0 < m) (e : ℤ) :
    Int.log 2 ((m : ℚ) * 2 ^ e) = m.log2 + e := by
  have hpow : (0 : ℚ) < 2 ^ e := zpow_pos two_pos e
  have hv : (0 : ℚ) < m * 2 ^ e := mul_pos (by exact_mod_cast hm) hpow
  refine le_antisymm ?_ ?_
  · rw [← Int.lt_add_one_iff, ← Int.lt_zpow_iff_log_lt (by decide) hv, Nat.cast_ofNat, add_right_comm,
      zpow_add₀ two_ne_zero]
    refine mul_lt_mul_of_pos_right ?_ hpow
    have := Nat.lt_log2_self (n := m)
    exact_mod_cast this
  · rw [← Int.zpow_le_iff_le_log (by decide) hv, Nat.cast_ofNat, zpow_add₀ two_ne_zero]
    refine mul_le_mul_of_nonneg_right ?_ hpow.le
    exact_mod_cast Nat.log2_self_le hm.ne'

theorem lastPlace_mantissa {m : Nat} (hm : 0 < m) (e : ℤ) :
    lastPlace (m * 2 ^ e) = Format.binary64.targetExponent (totalExponent m e) := by
  rw [lastPlace, log_mantissa hm, totalExponent]
  congr 1
  omega

/-- A mantissa that stands at its last place is kept as it is. -/
theorem roundWithAccuracy_exact {m : Nat} {e : ℤ} (hm : 0 < m)
    (he : Format.binary64.targetExponent (totalExponent m e) = e) :
    roundWithAccuracy .binary64 .positive m e .exact = .finite .positive m e hm := by
  have hshift : shiftToTargetExponent .binary64 m e .exact = (⟨m, false, false⟩, e) := by
    unfold shiftToTargetExponent shiftToExponent
    simp only [he, sub_self]
    exact congrArg _ (add_zero e)
  have hround : ExtendedMantissa.roundedMantissa ⟨m, false, false⟩ = m := rfl
  unfold roundWithAccuracy
  rw [hshift]
  dsimp only
  rw [hround, hshift]
  exact dif_neg hm.ne'

theorem RoundsTo.of_mantissa {m : Nat} {e : ℤ} (hm : 0 < m)
    (he : Format.binary64.targetExponent (totalExponent m e) = e) :
    RoundsTo (m * 2 ^ e) (.finite .positive m e hm) := by
  refine ⟨m, e, .exact, ?_, ?_, (roundWithAccuracy_exact hm he).symm⟩
  · rw [mul_div_assoc, div_self (zpow_ne_zero e two_ne_zero), mul_one]
    exact Cuts.exact m
  · rw [lastPlace_mantissa hm, he]

/-- A product is rounded as the product of the values, unless both mantissas are short. -/
theorem RoundsTo.of_mul {m₁ m₂ : Nat} {e₁ e₂ : ℤ} (h₁ : 0 < m₁) (h₂ : 0 < m₂)
    (hlong : 52 ≤ (m₁ * m₂).log2) :
    RoundsTo ((m₁ * 2 ^ e₁) * (m₂ * 2 ^ e₂))
      (mul .binary64 (.finite .positive m₁ e₁ h₁) (.finite .positive m₂ e₂ h₂)) := by
  have hpow : (2 : ℚ) ^ (e₁ + e₂) ≠ 0 := zpow_ne_zero _ two_ne_zero
  have hvalue : ((m₁ : ℚ) * 2 ^ e₁) * (m₂ * 2 ^ e₂) = (m₁ * m₂ : Nat) * 2 ^ (e₁ + e₂) := by
    rw [zpow_add₀ two_ne_zero]
    push_cast
    ring
  refine ⟨m₁ * m₂, e₁ + e₂, .exact, ?_, ?_, rfl⟩
  · rw [hvalue, mul_div_assoc, div_self hpow, mul_one]
    exact Cuts.exact _
  · rw [hvalue, lastPlace_eq, log_mantissa (Nat.mul_pos h₁ h₂)]
    omega

section Quotient

variable {m₁ m₂ : Nat} {e₁ e₂ : ℤ}

/-- How large a quotient is at least. -/
theorem le_log_div (h₁ : 0 < m₁) (h₂ : 0 < m₂) :
    m₁.log2 + e₁ - (m₂.log2 + 1 + e₂) ≤ Int.log 2 ((m₁ * 2 ^ e₁ : ℚ) / (m₂ * 2 ^ e₂)) := by
  have hm₁ : (0 : ℚ) < m₁ := by exact_mod_cast h₁
  have hm₂ : (0 : ℚ) < m₂ := by exact_mod_cast h₂
  have hv : (0 : ℚ) < (m₁ * 2 ^ e₁) / (m₂ * 2 ^ e₂) :=
    div_pos (mul_pos hm₁ (zpow_pos two_pos _)) (mul_pos hm₂ (zpow_pos two_pos _))
  rw [← Int.zpow_le_iff_le_log (by decide) hv, Nat.cast_ofNat, zpow_sub₀ two_ne_zero]
  refine div_le_div₀ (mul_pos hm₁ (zpow_pos two_pos _)).le ?_ (mul_pos hm₂ (zpow_pos two_pos _)) ?_
  · rw [zpow_add₀ two_ne_zero]
    refine mul_le_mul_of_nonneg_right ?_ (zpow_pos two_pos _).le
    exact_mod_cast Nat.log2_self_le h₁.ne'
  · rw [zpow_add₀ two_ne_zero]
    refine mul_le_mul_of_nonneg_right ?_ (zpow_pos two_pos _).le
    have := (Nat.lt_log2_self (n := m₂)).le
    exact_mod_cast this

/-- A quotient in units of `2 ^ target`, as a whole number and a fraction. -/
theorem div_eq_whole_add_fraction (h₂ : 0 < m₂) {target : ℤ} {shift : Nat}
    (h : e₁ - e₂ = target + shift) :
    (m₁ * 2 ^ e₁ : ℚ) / (m₂ * 2 ^ e₂) / 2 ^ target =
      ((m₁ <<< shift) / m₂ : Nat) + ((m₁ <<< shift) % m₂ : Nat) / m₂ := by
  have hm₂ : (m₂ : ℚ) ≠ 0 := by exact_mod_cast h₂.ne'
  have hne₂ : (2 : ℚ) ^ e₂ ≠ 0 := zpow_ne_zero _ two_ne_zero
  have hne : (2 : ℚ) ^ target ≠ 0 := zpow_ne_zero _ two_ne_zero
  have hpow : (2 : ℚ) ^ e₁ = 2 ^ e₂ * 2 ^ target * 2 ^ shift := by
    rw [← zpow_natCast, ← zpow_add₀ two_ne_zero, ← zpow_add₀ two_ne_zero]
    congr 1
    omega
  have hsplit := Nat.div_add_mod (m₁ <<< shift) m₂
  rw [Nat.shiftLeft_eq] at hsplit ⊢
  have hsplit : (m₂ : ℚ) * ((m₁ * 2 ^ shift) / m₂ : Nat) + ((m₁ * 2 ^ shift) % m₂ : Nat) =
      m₁ * 2 ^ shift := by exact_mod_cast hsplit
  rw [hpow]
  field_simp
  linarith

/-- A quotient is rounded as the quotient of the values. -/
theorem RoundsTo.of_div (h₁ : 0 < m₁) (h₂ : 0 < m₂) :
    RoundsTo ((m₁ * 2 ^ e₁) / (m₂ * 2 ^ e₂))
      (div .binary64 (.finite .positive m₁ e₁ h₁) (.finite .positive m₂ e₂ h₂)) := by
  have hlog : m₁.log2 + e₁ - (m₂.log2 + 1 + e₂) ≤ _ := le_log_div h₁ h₂
  generalize htarget : min (e₁ - e₂)
    (Format.binary64.targetExponent (totalExponent m₁ e₁ - totalExponent m₂ e₂)) = target
  have hle : target ≤ e₁ - e₂ := htarget ▸ min_le_left _ _
  generalize hshift : (e₁ - e₂ - target).toNat = shift
  have hdiv : div .binary64 (.finite .positive m₁ e₁ h₁) (.finite .positive m₂ e₂ h₂) =
      roundWithAccuracy .binary64 .positive ((m₁ <<< shift) / m₂) target
        (accuracyOfFraction ((m₁ <<< shift) % m₂) m₂) := by
    subst hshift htarget
    rfl
  refine ⟨_, _, _, ?_, ?_, hdiv⟩
  · have hsum : e₁ - e₂ = target + shift := by omega
    rw [div_eq_whole_add_fraction h₂ hsum]
    exact Cuts.fraction _ (Nat.mod_lt _ h₂)
  · rw [targetExponent_binary64, totalExponent, totalExponent] at htarget
    rw [lastPlace_eq]
    omega

end Quotient

end MealRota
