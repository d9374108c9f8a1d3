import MealRota.Proofs.Doubles
import MealRota.Proofs.Rounding

/-!
# MealRota.Proofs.Decimals

Decimals and the doubles nearest to them.

* `HasValue` — a positive double with its value and its mantissa in full length;
* `Decimal.toDouble_rounds` — the double of a decimal is what its value is rounded to, so decimals
  of the same value have the same double (`Decimal.toDouble_congr`);
* `Decimal.shortest_readsAs` — the shortest decimal of a positive double reads back as the double.

Small digits with a small exponent are converted by one multiplication or division of doubles,
all others by integer arithmetic.  Both round the same value once, which is what
`toDouble_rounds` says.
-/

namespace MealRota

open Float.Model Float.Model.UnpackedFloat

/-! ## doubles of known value -/

theorem log2_shiftLeft {n : Nat} (h : n ≠ 0) (k : Nat) : (n <<< k).log2 = n.log2 + k := by
  induction k with
  | zero => rfl
  | succ k ih =>
      have hne : n <<< k ≠ 0 := (Nat.shiftLeft_pos_iff.mpr (Nat.pos_of_ne_zero h)).ne'
      rw [Nat.shiftLeft_succ, Nat.log2_two_mul hne, ih, Nat.add_assoc]

/-- A double that is positive and normal: its value, and its mantissa in full length. -/
structure HasValue (x : Float) (v : ℚ) (m : Nat) (e : ℤ) : Prop where
  pos : 0 < m
  unpack : x.toModel.unpack = .finite .positive m e pos
  full : 2 ^ 52 ≤ m
  value : (m : ℚ) * 2 ^ e = v

namespace HasValue

variable {x y : Float} {v w : ℚ} {m m' : Nat} {e e' : ℤ}

theorem mul (hx : HasValue x v m e) (hy : HasValue y w m' e') :
    ∃ u, RoundsTo (v * w) u ∧ x * y = .ofModel (.pack u) := by
  have hlong : 52 ≤ (m * m').log2 := by
    rw [Nat.le_log2 (Nat.mul_pos hx.pos hy.pos).ne']
    exact hx.full.trans (Nat.le_mul_of_pos_right m hy.pos)
  refine ⟨_, hx.value ▸ hy.value ▸ RoundsTo.of_mul hx.pos hy.pos hlong, ?_⟩
  rw [← hx.unpack, ← hy.unpack]
  rfl

theorem div (hx : HasValue x v m e) (hy : HasValue y w m' e') :
    ∃ u, RoundsTo (v / w) u ∧ x / y = .ofModel (.pack u) := by
  refine ⟨_, hx.value ▸ hy.value ▸ RoundsTo.of_div hx.pos hy.pos, ?_⟩
  rw [← hx.unpack, ← hy.unpack]
  rfl

/-- Whether a double is positive, of full length and of the value `10^k`. -/
def isPowerOfTen (k : Nat) (x : Float) : Bool :=
  match x.toModel.unpack with
  | .finite .positive m e _ =>
      2 ^ 52 ≤ m ∧ m * 2 ^ e.toNat = 10 ^ k * 2 ^ (-e).toNat
  | _ => false

theorem isPowerOfTen_table : ∀ k : Fin Float.exactlyRepresentablePowersOfTen.size,
    isPowerOfTen k Float.exactlyRepresentablePowersOfTen[k] = true := by decide +kernel

theorem powerOfTen {k : Nat} (hk : k < Float.exactlyRepresentablePowersOfTen.size) :
    ∃ m e, HasValue Float.exactlyRepresentablePowersOfTen[k] (10 ^ k) m e := by
  have hpower := isPowerOfTen_table ⟨k, hk⟩
  simp only [Fin.getElem_fin] at hpower
  unfold isPowerOfTen at hpower
  split at hpower
  · next m e hm hunpack =>
      obtain ⟨hfull, heq⟩ := of_decide_eq_true hpower
      refine ⟨m, e, hm, hunpack, hfull, ?_⟩
      have heq : (m : ℚ) * 2 ^ e.toNat = 10 ^ k * 2 ^ (-e).toNat := by exact_mod_cast heq
      have hsplit : (2 : ℚ) ^ e = 2 ^ e.toNat / 2 ^ (-e).toNat := by
        rw [← zpow_natCast, ← zpow_natCast, ← zpow_sub₀ two_ne_zero]
        congr 1
        omega
      rw [hsplit, ← mul_div_assoc, heq, mul_div_assoc, div_self (by positivity), mul_one]
  · contradiction

/-- A number of few bits is rounded to itself, its mantissa in full length. -/
theorem round_ofNat {n : Nat} (hn : 0 < n) (hshort : n.log2 ≤ 52) :
    UnpackedFloat.round .binary64 .positive n 0 =
      .finite .positive (n <<< (52 - n.log2)) (n.log2 - 52) (Nat.shiftLeft_pos_iff.mpr hn) := by
  unfold UnpackedFloat.round decreaseExponent
  simp only [targetExponent_binary64, totalExponent]
  rw [show (0 - max ((n.log2 : ℤ) + 1 + 0 - 53) (-1074)).toNat = 52 - n.log2 by omega,
    show (0 : ℤ) - (52 - n.log2 : Nat) = n.log2 - 52 by omega]
  refine roundWithAccuracy_exact (Nat.shiftLeft_pos_iff.mpr hn) ?_
  rw [targetExponent_binary64, totalExponent, log2_shiftLeft hn.ne']
  omega

theorem ofNat {n : Nat} (hn : 0 < n) (hshort : n < 2 ^ 53) :
    ∃ m e, HasValue n.toUInt64.toFloat n m e := by
  have hlog : n.log2 ≤ 52 := Nat.lt_succ_iff.mp ((Nat.log2_lt hn.ne').mpr hshort)
  have hpos : 0 < n <<< (52 - n.log2) := Nat.shiftLeft_pos_iff.mpr hn
  have hlong : (n <<< (52 - n.log2)).log2 = 52 := by
    rw [log2_shiftLeft hn.ne']
    omega
  have hbounds := (Nat.log2_eq_iff hpos.ne').mp hlong
  have hcanonical : Canonical (n <<< (52 - n.log2)) (n.log2 - 52) :=
    ⟨hpos, hbounds.2, by omega, by omega, Or.inl hbounds.1⟩
  refine ⟨_, n.log2 - 52, hpos, ?_, hbounds.1, ?_⟩
  · have hword : n.toUInt64.toNat = n := UInt64.toNat_ofNat_of_lt (hshort.trans (by decide))
    have hconvert : UnpackedFloat.ofUInt64 .binary64 n.toUInt64 =
        UnpackedFloat.round .binary64 .positive n 0 := by
      unfold UnpackedFloat.ofUInt64 UnpackedFloat.ofNat UnpackedFloat.ofInt UnpackedFloat.normalize
      rw [hword, Int.compare_eq_gt.mpr (by omega)]
      rfl
    show (Float.Model.pack (UnpackedFloat.ofUInt64 .binary64 n.toUInt64)).unpack = _
    rw [hconvert, round_ofNat hn hlog, unpack_pack hcanonical]
  · have hunit : ((52 - n.log2 : Nat) : ℤ) + (n.log2 - 52) = 0 := by omega
    rw [Nat.shiftLeft_eq, Nat.cast_mul, Nat.cast_pow, Nat.cast_ofNat, mul_assoc, ← zpow_natCast,
      ← zpow_add₀ two_ne_zero, hunit, zpow_zero, mul_one]

end HasValue

theorem le_log2_shift {m n : Nat} (hm : 0 < m) (hn : 0 < n) (k : Nat) :
    k ≤ (m <<< k * n).log2 := by
  have hpos : 0 < m <<< k * n := Nat.mul_pos (Nat.shiftLeft_pos_iff.mpr hm) hn
  rw [Nat.le_log2 hpos.ne', Nat.shiftLeft_eq, mul_right_comm]
  exact Nat.le_mul_of_pos_left _ (Nat.mul_pos hm hn)

namespace Decimal

/-- The number that a decimal stands for. -/
def value (d : Decimal) : ℚ := d.digits * 10 ^ d.exponent

/-- The exponents for which decimals are rounded, all but absurdly large and small ones. -/
def Moderate (d : Decimal) : Prop := -2048 ≤ d.exponent ∧ d.exponent ≤ 2048

theorem value_pos {d : Decimal} (h : 0 < d.digits) : 0 < d.value :=
  mul_pos (by exact_mod_cast h) (zpow_pos (by norm_num) _)

theorem value_of_neg {d : Decimal} (h : d.exponent < 0) :
    d.value = d.digits / 10 ^ d.exponent.natAbs := by
  rw [value, div_eq_mul_inv, ← zpow_natCast, ← zpow_neg]
  congr 2
  omega

theorem value_of_nonneg {d : Decimal} (h : 0 ≤ d.exponent) :
    d.value = d.digits * 10 ^ d.exponent.natAbs := by
  rw [value, ← zpow_natCast]
  congr 2
  omega

/-- Few digits and a small exponent are converted by one operation on doubles. -/
theorem quick_rounds {d : Decimal} (hpos : 0 < d.digits) (hshort : d.digits < 2 ^ 53)
    (hsmall : d.exponent.natAbs < Float.exactlyRepresentablePowersOfTen.size) :
    ∃ u, RoundsTo d.value u ∧
      (if d.exponent < 0 then
          d.digits.toUInt64.toFloat / Float.exactlyRepresentablePowersOfTen[d.exponent.natAbs]
        else d.digits.toUInt64.toFloat * Float.exactlyRepresentablePowersOfTen[d.exponent.natAbs]) =
        .ofModel (.pack u) := by
  obtain ⟨m, e, hdigits⟩ := HasValue.ofNat hpos hshort
  obtain ⟨m', e', hpower⟩ := HasValue.powerOfTen hsmall
  split
  · next hneg =>
      rw [value_of_neg hneg]
      exact hdigits.div hpower
  · next hneg =>
      rw [value_of_nonneg (not_lt.mp hneg)]
      exact hdigits.mul hpower

/-- Whole digits and exponents are converted by whole arithmetic. -/
theorem ofScientific_rounds {d : Decimal} (hpos : 0 < d.digits) (h : d.Moderate) :
    RoundsTo d.value (UnpackedFloat.ofScientific .binary64 d.digits d.exponent) := by
  obtain ⟨hleast, hmost⟩ := h
  unfold UnpackedFloat.ofScientific
  rw [dif_neg hpos.ne', if_neg (by norm_num; omega), if_neg (by norm_num; omega)]
  split
  · next hnonneg =>
      have hlong : 52 ≤ (d.digits <<< 53 * 10 ^ d.exponent.toNat).log2 :=
        (Nat.le_succ 52).trans (le_log2_shift hpos (Nat.pow_pos (by decide)) 53)
      have hvalue : d.value = ((d.digits <<< 53 : Nat) * 2 ^ (-53 : ℤ)) *
          ((10 ^ d.exponent.toNat : Nat) * 2 ^ (0 : ℤ)) := by
        have hunit : (2 : ℚ) ^ 53 * 2 ^ (-53 : ℤ) = 1 := by norm_num
        rw [value_of_nonneg hnonneg, Nat.shiftLeft_eq, zpow_zero, mul_one,
          show d.exponent.natAbs = d.exponent.toNat by omega]
        rw [Nat.cast_mul, Nat.cast_pow, Nat.cast_pow, Nat.cast_ofNat, Nat.cast_ofNat,
          mul_assoc (d.digits : ℚ), hunit, mul_one]
      rw [hvalue]
      exact RoundsTo.of_mul _ _ hlong
  · next hneg =>
      have hvalue : d.value = (d.digits * 2 ^ (0 : ℤ)) /
          ((10 ^ (-d.exponent).toNat : Nat) * 2 ^ (0 : ℤ)) := by
        rw [value_of_neg (not_le.mp hneg), zpow_zero, mul_one, mul_one, Nat.cast_pow,
          Nat.cast_ofNat, show d.exponent.natAbs = (-d.exponent).toNat by omega]
      rw [hvalue]
      exact RoundsTo.of_div _ _

/-- The double of a decimal is what its value is rounded to. -/
theorem toDouble_rounds {d : Decimal} (hpos : 0 < d.digits) (h : d.Moderate) :
    ∃ u, RoundsTo d.value u ∧ d.toDouble = .ofModel (.pack u) := by
  unfold toDouble Float.ofScientific
  simp only [decide_eq_true_eq]
  split
  · next hquick => exact quick_rounds hpos hquick.1 (Nat.lt_succ_of_le hquick.2)
  · have hexponent : (if d.exponent < 0 then Int.negOfNat d.exponent.natAbs
        else Int.ofNat d.exponent.natAbs) = d.exponent := by
      split <;> simp only [Int.negOfNat_eq, Int.ofNat_eq_natCast] <;> omega
    rw [hexponent]
    exact ⟨_, ofScientific_rounds hpos h, rfl⟩

/-- Decimals of the same value are rounded to the same double. -/
theorem toDouble_congr {c d : Decimal} (hc : 0 < c.digits) (hd : 0 < d.digits)
    (hcm : c.Moderate) (hdm : d.Moderate) (h : c.value = d.value) : c.toDouble = d.toDouble := by
  obtain ⟨u, hu, hcu⟩ := toDouble_rounds hc hcm
  obtain ⟨v, hv, hdv⟩ := toDouble_rounds hd hdm
  rw [hcu, hdv, hu.unique (value_pos hc) (h ▸ hv)]

/-! ## the expansion of a double -/

theorem value_ofBinary (m : Nat) (e : ℤ) : (ofBinary m e).value = m * 2 ^ e := by
  unfold ofBinary
  split
  · next hneg =>
      have hfive : (5 : ℚ) ^ e.natAbs = 5 ^ (-e) := by
        rw [← zpow_natCast]
        congr 1
        omega
      have hten : (10 : ℚ) ^ e = 5 ^ e * 2 ^ e := by rw [← mul_zpow]; norm_num
      have hunit : (5 : ℚ) ^ (-e) * 5 ^ e = 1 := by
        rw [← zpow_add₀ (by norm_num), neg_add_cancel, zpow_zero]
      rw [value, Nat.pow_eq, Nat.cast_mul, Nat.cast_pow, Nat.cast_ofNat, hfive, hten, mul_assoc,
        ← mul_assoc ((5 : ℚ) ^ (-e)), hunit, one_mul]
  · next hneg =>
      rw [value, zpow_zero, mul_one, Nat.pow_eq, Nat.cast_mul, Nat.cast_pow, Nat.cast_ofNat,
        ← zpow_natCast, show (e.natAbs : ℤ) = e by omega]

theorem ofBinary_digits_pos {m : Nat} (h : 0 < m) (e : ℤ) : 0 < (ofBinary m e).digits := by
  unfold ofBinary
  split
  · exact Nat.mul_pos h (Nat.pow_pos (by decide))
  · exact Nat.mul_pos h (Nat.pow_pos (by decide))

theorem ofBinary_exponent (m : Nat) {e : ℤ} (h : -1074 ≤ e) :
    -1074 ≤ (ofBinary m e).exponent ∧ (ofBinary m e).exponent ≤ 0 := by
  unfold ofBinary
  split <;> simp only <;> omega

/-- Expansions of doubles have less than a thousand digits. -/
theorem ofBinary_digits_lt {m : Nat} {e : ℤ} (h : Canonical m e) :
    (ofBinary m e).digits < 10 ^ 1000 := by
  obtain ⟨hpos, hshort, hleast, hmost, -⟩ := h
  unfold ofBinary
  split
  · calc m * Nat.pow 5 e.natAbs ≤ 2 ^ 53 * 5 ^ 1074 :=
          Nat.mul_le_mul hshort.le (Nat.pow_le_pow_right (by decide) (by omega))
      _ < 10 ^ 1000 := by decide +kernel
  · calc m * Nat.pow 2 e.natAbs ≤ 2 ^ 53 * 2 ^ 971 :=
          Nat.mul_le_mul hshort.le (Nat.pow_le_pow_right (by decide) (by omega))
      _ < 10 ^ 1000 := by decide +kernel

/-- The expansion of a double reads back as the double. -/
theorem toDouble_ofBinary {m : Nat} {e : ℤ} (h : Canonical m e) :
    (ofBinary m e).toDouble = .ofModel (.pack (.finite .positive m e h.pos)) := by
  have hdigits := ofBinary_digits_pos h.pos e
  have hexponent := ofBinary_exponent m h.least
  obtain ⟨u, hu, hdouble⟩ := toDouble_rounds hdigits (d := ofBinary m e)
    ⟨by omega, by omega⟩
  have hplace : Format.binary64.targetExponent (totalExponent m e) = e := by
    have hleast := h.least
    have hlog : m.log2 ≤ 52 := Nat.lt_succ_iff.mp ((Nat.log2_lt h.pos.ne').mpr h.short)
    rw [targetExponent_binary64, totalExponent]
    obtain hfull | hplace := h.full
    · rw [log2_eq_of_full hfull h.short]
      omega
    · omega
  have hvalue := value_pos hdigits
  rw [value_ofBinary] at hu hvalue
  rw [hdouble, hu.unique hvalue (RoundsTo.of_mantissa h.pos hplace)]

/-! ## the shortest decimal -/

/-- A decimal that reads back as `x`, within bounds that hold on the way to the shortest one. -/
structure ReadsAs (d : Decimal) (x : Float) : Prop where
  pos : 0 < d.digits
  least : -1074 ≤ d.exponent
  toDouble : d.toDouble = x

theorem of_mem_neighbours {c d : Decimal} {drop : Nat} (h : c ∈ d.neighbours drop) :
    (c.digits = d.digits / 10 ^ drop ∨ c.digits = d.digits / 10 ^ drop + 1) ∧
      c.exponent = d.exponent + drop := by
  simp only [neighbours] at h
  split at h
  · obtain rfl | rfl := List.mem_pair.mp h
    · exact ⟨Or.inl rfl, rfl⟩
    · exact ⟨Or.inr rfl, rfl⟩
  · obtain rfl | rfl := List.mem_pair.mp h
    · exact ⟨Or.inr rfl, rfl⟩
    · exact ⟨Or.inl rfl, rfl⟩

/-- Cutting digits off keeps a decimal that reads back. -/
theorem shorten_spec {x : Float} {d : Decimal} (h : d.ReadsAs x) {drop : Nat}
    (hdrop : 10 ^ drop ≤ d.digits) :
    (shorten x d drop).ReadsAs x ∧ (shorten x d drop).digits ≤ d.digits ∧
      (shorten x d drop).exponent ≤ d.exponent + drop := by
  induction drop with
  | zero => exact ⟨h, le_refl _, le_add_of_nonneg_right (Int.natCast_nonneg 0)⟩
  | succ drop ih =>
      unfold shorten
      split
      · next c hc =>
          have hdouble : c.toDouble = x := by simpa using List.find?_some hc
          have hunit : 10 ≤ 10 ^ (drop + 1) := by
            rw [Nat.pow_succ]
            exact Nat.le_mul_of_pos_left _ (Nat.pow_pos (by decide))
          have hfirst : 0 < d.digits / 10 ^ (drop + 1) := Nat.div_pos hdrop (by omega)
          have hcut : d.digits / 10 ^ (drop + 1) + 1 ≤ d.digits := by
            have := Nat.div_le_div_left hunit (by decide) (a := d.digits)
            omega
          have hleast := h.least
          obtain ⟨hdigits, hexponent⟩ := of_mem_neighbours (List.mem_of_find?_eq_some hc)
          exact ⟨⟨by omega, by omega, hdouble⟩, by omega, hexponent.le⟩
      · have hless : 10 ^ drop ≤ d.digits :=
          (Nat.pow_le_pow_right (by decide) (Nat.le_succ drop)).trans hdrop
        obtain ⟨hreads, hdigits, hexponent⟩ := ih hless
        exact ⟨hreads, hdigits, by omega⟩

/-- Striking out zeros keeps the value. -/
theorem strikeZeros_spec {d : Decimal} (h : 0 < d.digits) (fuel : Nat) :
    0 < (strikeZeros fuel d).digits ∧ (strikeZeros fuel d).value = d.value ∧
      d.exponent ≤ (strikeZeros fuel d).exponent ∧
      (strikeZeros fuel d).exponent ≤ d.exponent + fuel := by
  induction fuel generalizing d with
  | zero => exact ⟨h, rfl, le_refl _, le_add_of_nonneg_right (Int.natCast_nonneg 0)⟩
  | succ fuel ih =>
      unfold strikeZeros
      split
      · next hzero =>
          have hsplit : d.digits = d.digits / 10 * 10 := by omega
          obtain ⟨hpos, hvalue, hleast, hmost⟩ := ih (d := ⟨d.digits / 10, d.exponent + 1⟩)
            (by simp only; omega)
          simp only at hleast hmost
          refine ⟨hpos, hvalue.trans ?_, by omega, by omega⟩
          rw [value, value, hsplit, Nat.cast_mul, Nat.mul_div_cancel _ (by decide),
            zpow_add₀ (by norm_num), zpow_one]
          push_cast
          ring
      · exact ⟨h, rfl, le_refl _, by omega⟩

theorem length_le {d : Decimal} {n : Nat} (hn : 0 < n) (h : d.digits < 10 ^ n) : d.length ≤ n :=
  (Nat.length_toDigits_le_iff (by decide) hn).mpr h

theorem pow_length_le {d : Decimal} (h : 0 < d.digits) : 10 ^ (d.length - 1) ≤ d.digits := by
  rcases Nat.eq_zero_or_pos (d.length - 1) with hzero | hpos
  · rw [hzero]
    exact h
  · by_contra hlt
    have := length_le hpos (not_le.mp hlt)
    omega

/-- The shortest decimal of a positive double reads back as the double. -/
theorem shortest_readsAs {x : Float} {m : Nat} {e : ℤ} {h : 0 < m}
    (hx : x.toModel.unpack = .finite .positive m e h) : (shortest x).ReadsAs x := by
  have hcanonical := Canonical.of_unpack hx
  have hexponent := ofBinary_exponent m hcanonical.least
  have hpos := ofBinary_digits_pos h e
  have hlong := ofBinary_digits_lt hcanonical
  have hdouble : (ofBinary m e).toDouble = x := by
    rw [toDouble_ofBinary hcanonical, ← hx, pack_unpack_model]
  have hlength : (ofBinary m e).length ≤ 1000 := length_le (by decide) hlong
  obtain ⟨hreads, hdigits, hmost⟩ := shorten_spec ⟨hpos, hexponent.1, hdouble⟩
    (pow_length_le hpos)
  unfold shortest
  rw [hx]
  simp only
  generalize shorten x (ofBinary m e) ((ofBinary m e).length - 1) = c at hreads hdigits hmost
  have hclength : c.length ≤ 1000 := length_le (by decide) (hdigits.trans_lt hlong)
  have hcleast := hreads.least
  obtain ⟨hnpos, hnvalue, hnleast, hnmost⟩ := strikeZeros_spec hreads.pos c.length
  rw [normalize, if_neg hreads.pos.ne']
  refine ⟨hnpos, by omega, ?_⟩
  rw [← hreads.toDouble]
  exact toDouble_congr hnpos hreads.pos ⟨by omega, by omega⟩ ⟨by omega, by omega⟩ hnvalue

end Decimal

end MealRota
