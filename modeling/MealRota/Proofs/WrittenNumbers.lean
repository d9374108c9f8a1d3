import MealRota.Json.Reader
import MealRota.Json.Writer
import MealRota.Proofs.Decimals
import MealRota.Proofs.Digits

/-!
# MealRota.Proofs.WrittenNumbers

Numbers written in a text and read back: what is read is the number that was written.

* `Numeral.strict?_ofInt` — a whole number comes back, unless it has too many digits;
* `Numeral.strict?_snapshot` — every finite double comes back, the sign of a zero included.

A double is written as its shortest decimal, in one of five layouts.  In four of them the
numeral spells the very digits and exponent of the decimal; a double that has no fraction
gets zeros up to the point and one after it, which keeps the value of the decimal.
-/

namespace MealRota

namespace Numeral

theorem isLeadFree_cons {c : Char} {l : List Char} (h : c ≠ '0') : isLeadFree (c :: l) = true := by
  unfold isLeadFree
  split
  · contradiction
  · rfl
  · next c' _ _ heq =>
      cases heq
      exact bne_iff_ne.mpr h

theorem isLeadFree_toDigits (n : Nat) : isLeadFree (Nat.toDigits 10 n) = true := by
  rcases Nat.eq_zero_or_pos n with rfl | hpos
  · rfl
  · obtain ⟨c, l, hl, hc⟩ := toDigits_eq_cons hpos
    rw [hl]
    exact isLeadFree_cons hc

/-! ## the parts of a numeral -/

section Parts

variable {negative : Bool} {ds fs rest : List Char} {e : Int}

theorem unsigned?_digits (hds : AllDigits ds) :
    unsigned? negative ds = some ⟨negative, ds, none, none⟩ := by
  unfold unsigned?
  rw [hds.span_all]

theorem unsigned?_point (hds : AllDigits ds) (hfs : AllDigits fs) :
    unsigned? negative (ds ++ '.' :: fs) = some ⟨negative, ds, some fs, none⟩ := by
  unfold unsigned?
  rw [hds.span (by simp)]
  simp only [hfs.span_all]

theorem unsigned?_exponent (hds : AllDigits ds) (he : exponent? rest = some e) :
    unsigned? negative (ds ++ 'e' :: rest) = some ⟨negative, ds, none, some e⟩ := by
  unfold unsigned?
  rw [hds.span (by simp)]
  simp [he]

theorem unsigned?_point_exponent (hds : AllDigits ds) (hfs : AllDigits fs)
    (he : exponent? rest = some e) :
    unsigned? negative (ds ++ '.' :: (fs ++ 'e' :: rest)) =
      some ⟨negative, ds, some fs, some e⟩ := by
  have hspan : (fs ++ 'e' :: rest).span Char.isDigit = (fs, 'e' :: rest) := hfs.span (by simp)
  unfold unsigned?
  rw [hds.span (by simp)]
  simp only [hspan]
  simp [he]

end Parts

theorem exponent?_written (width : Nat) (power : Int) :
    exponent? ((if power < 0 then '-' else '+') ::
      Layout.padLeft width (Nat.toDigits 10 power.natAbs)) = some power := by
  have hdigits : AllDigits (Layout.padLeft width (Nat.toDigits 10 power.natAbs)) :=
    (AllDigits.zeros _).append (AllDigits.toDigits _)
  have hvalue : digitsValue (Layout.padLeft width (Nat.toDigits 10 power.natAbs)) =
      power.natAbs := by
    rw [Layout.padLeft, digitsValue_zeros_append, digitsValue_toDigits]
  have hempty : (Layout.padLeft width (Nat.toDigits 10 power.natAbs)).isEmpty = false := by
    exact List.isEmpty_eq_false_iff.mpr (List.append_ne_nil_of_right_ne_nil _ Nat.toDigits_ne_nil)
  have hall := List.all_eq_true.mpr hdigits
  unfold exponent?
  split_ifs with hneg
  · simp only [hempty, hall, hvalue, Bool.not_true, Bool.or_self, Bool.false_eq_true, if_false,
      if_true, Option.some.injEq]
    omega
  · simp only [hempty, hall, hvalue, Bool.not_true, Bool.or_self, Bool.false_eq_true, if_false,
      Option.some.injEq]
    omega

/-! ## doubles -/

/-- The decimal that a numeral spells, its sign aside. -/
def decimal (n : Numeral) : Decimal :=
  ⟨digitsValue (n.wholeDigits ++ n.fraction.getD []),
    n.exponent.getD 0 - (n.fraction.getD []).length⟩

/-- A text that is the numeral `n`, whatever sign is put in front, and is read as the double that
is nearest to `d`. -/
structure Spells (cs : List Char) (n : Numeral) (d : Decimal) : Prop where
  parts : ∀ negative, unsigned? negative cs = some { n with negative := negative }
  lead : isLeadFree n.wholeDigits = true
  fraction : n.fraction ≠ some []
  real : n.isWhole = false
  short : n.wholeDigits.length ≤ 2048
  double : n.decimal.toDouble = d.toDouble

section Spells

variable {l : List Char} {k : Nat}

/-- Digits with a point. -/
theorem Spells.withPoint (hl : AllDigits l) (hk : k < l.length) (hshort : k ≤ 2048)
    (hlead : isLeadFree (l.take k) = true) :
    Spells (Layout.withPoint k l) ⟨false, l.take k, some (l.drop k), none⟩
      ⟨digitsValue l, k - l.length⟩ where
  parts _ := unsigned?_point (hl.take k) (hl.drop k)
  lead := hlead
  fraction h := by
    have := List.drop_eq_nil_iff.mp (Option.some.inj h)
    omega
  real := rfl
  short := (List.length_take_le k l).trans hshort
  double := by
    congr 1
    simp only [decimal, Option.getD_some, Option.getD_none, List.take_append_drop,
      List.length_drop, Decimal.mk.injEq, true_and]
    omega

/-- Digits with a point and an exponent. -/
theorem Spells.withPoint_exponent {rest : List Char} {power : Int} (hl : AllDigits l)
    (hk : k < l.length) (hshort : k ≤ 2048) (hlead : isLeadFree (l.take k) = true)
    (hpower : exponent? rest = some power) :
    Spells (Layout.withPoint k l ++ 'e' :: rest) ⟨false, l.take k, some (l.drop k), some power⟩
      ⟨digitsValue l, power + (k - l.length)⟩ where
  parts negative := by
    rw [Layout.withPoint, List.append_assoc, List.cons_append]
    exact unsigned?_point_exponent (hl.take k) (hl.drop k) hpower
  lead := hlead
  fraction h := by
    have := List.drop_eq_nil_iff.mp (Option.some.inj h)
    omega
  real := rfl
  short := (List.length_take_le k l).trans hshort
  double := by
    congr 1
    simp only [decimal, Option.getD_some, List.take_append_drop, List.length_drop,
      Decimal.mk.injEq, true_and]
    omega

end Spells

theorem isLeadFree_take {n k : Nat} (hn : 0 < n) (hk : 0 < k) :
    isLeadFree ((Nat.toDigits 10 n).take k) = true := by
  obtain ⟨c, l, hl, hc⟩ := toDigits_eq_cons hn
  obtain ⟨k, rfl⟩ := Nat.exists_eq_succ_of_ne_zero hk.ne'
  rw [hl, List.take_succ_cons]
  exact isLeadFree_cons hc

section Positional

variable {d : Decimal} {power : Int}

/-- Zeros before the digits, the point after the first zero. -/
theorem below_spells (hneg : power < 0)
    (hpower : power = d.exponent + (Nat.toDigits 10 d.digits).length - 1) :
    ∃ n, Spells (Layout.withPoint 1
      (List.replicate power.natAbs '0' ++ Nat.toDigits 10 d.digits)) n d := by
  obtain ⟨k, hk⟩ : ∃ k, power.natAbs = k + 1 := ⟨power.natAbs - 1, by omega⟩
  have hlength := Nat.length_toDigits_pos (b := 10) (n := d.digits)
  have hdigits := (AllDigits.zeros power.natAbs).append (AllDigits.toDigits d.digits)
  have hspells := Spells.withPoint hdigits (k := 1)
    (by rw [List.length_append, List.length_replicate]; omega) (by decide)
    (by rw [hk, List.replicate_succ, List.cons_append]; rfl)
  have hexponent : ((1 : Nat) : Int) - (power.natAbs + (Nat.toDigits 10 d.digits).length : Nat) =
      d.exponent := by omega
  rw [digitsValue_zeros_append, digitsValue_toDigits, List.length_append, List.length_replicate,
    hexponent] at hspells
  exact ⟨_, hspells⟩

/-- The digits of a whole number, zeros up to the point and one after it. -/
theorem whole_spells (hpos : 0 < d.digits) {k : Nat} (hk : d.exponent = k)
    (hshort : (Nat.toDigits 10 d.digits).length + k ≤ 2048) :
    ∃ n, Spells (Nat.toDigits 10 d.digits ++ List.replicate k '0' ++ ['.', '0']) n d := by
  refine ⟨⟨false, Nat.toDigits 10 d.digits ++ List.replicate k '0', some ['0'], none⟩,
    ⟨fun negative => unsigned?_point ((AllDigits.toDigits _).append (AllDigits.zeros k))
      (AllDigits.zeros 1), ?_, nofun, rfl, ?_, ?_⟩⟩
  · obtain ⟨c, l, hl, hc⟩ := toDigits_eq_cons hpos
    rw [hl, List.cons_append]
    exact isLeadFree_cons hc
  · rw [List.length_append, List.length_replicate]
    exact hshort
  · have hdigits : digitsValue (Nat.toDigits 10 d.digits ++ List.replicate k '0' ++ ['0']) =
        d.digits * 10 ^ (k + 1) := by
      rw [List.append_assoc, ← List.replicate_succ', digitsValue_append_zeros,
        digitsValue_toDigits]
    have hplaces : (0 : Int) - (['0'].length : Nat) = -1 := rfl
    have hvalue : Decimal.value ⟨d.digits * 10 ^ (k + 1), -1⟩ = d.value := by
      rw [Decimal.value, Decimal.value_of_nonneg (by omega), hk, Int.natAbs_natCast]
      push_cast
      rw [pow_succ, mul_assoc, mul_assoc]
      norm_num
    rw [decimal]
    simp only [Option.getD_some, Option.getD_none, hdigits, hplaces]
    exact Decimal.toDouble_congr (Nat.mul_pos hpos (Nat.pow_pos (by decide))) hpos
      ⟨by norm_num, by norm_num⟩ ⟨by omega, by omega⟩ hvalue

/-- A positional form is read as its decimal. -/
theorem positional_spells (hpos : 0 < d.digits) (hmost : power < 2048)
    (hpower : power = d.exponent + (Nat.toDigits 10 d.digits).length - 1) :
    ∃ n, Spells (Layout.positional (Nat.toDigits 10 d.digits) power) n d := by
  unfold Layout.positional
  simp only
  split
  · next hneg => exact below_spells hneg hpower
  · next hneg =>
      split
      · next hfits => exact whole_spells hpos (by omega) (by omega)
      · next hlong =>
          have hspells := Spells.withPoint (AllDigits.toDigits d.digits) (k := power.natAbs + 1)
            (by omega) (by omega) (isLeadFree_take hpos (Nat.succ_pos _))
          have hexponent : ((power.natAbs + 1 : Nat) : Int) - (Nat.toDigits 10 d.digits).length =
              d.exponent := by omega
          rw [digitsValue_toDigits, hexponent] at hspells
          exact ⟨_, hspells⟩

end Positional

/-- A form with an exponent is read as its decimal. -/
theorem scientific_spells (f : Layout) {d : Decimal} {power : Int} (hpos : 0 < d.digits)
    (hpower : power = d.exponent + (Nat.toDigits 10 d.digits).length - 1) :
    ∃ n, Spells (f.scientific (Nat.toDigits 10 d.digits) power) n d := by
  have hlength := Nat.length_toDigits_pos (b := 10) (n := d.digits)
  have hdigits := AllDigits.toDigits d.digits
  have hexponent := exponent?_written f.exponentDigits power
  unfold Layout.scientific
  simp only
  split
  · next hone =>
      refine ⟨⟨false, Nat.toDigits 10 d.digits, none, some power⟩,
        ⟨fun negative => unsigned?_exponent hdigits hexponent, isLeadFree_toDigits _, nofun, rfl,
          by simp only; omega, ?_⟩⟩
      congr 1
      simp only [decimal, Option.getD_some, Option.getD_none, List.append_nil,
        digitsValue_toDigits, List.length_nil]
      rw [show power - ((0 : Nat) : Int) = d.exponent by omega]
  · next hlong =>
      have hspells := Spells.withPoint_exponent hdigits (k := 1) (by omega) (by decide)
        (isLeadFree_take hpos Nat.one_pos) hexponent
      have hpower : power + (((1 : Nat) : Int) - (Nat.toDigits 10 d.digits).length) =
          d.exponent := by omega
      rw [digitsValue_toDigits, hpower] at hspells
      exact ⟨_, hspells⟩

/-- The written form of a decimal is read as the decimal. -/
theorem ofDecimal_spells {f : Layout} (hf : f.beyond ≤ 2048) {d : Decimal} (hpos : 0 < d.digits) :
    ∃ n, Spells (f.ofDecimal d) n d := by
  unfold Layout.ofDecimal
  simp only
  split
  · next h => exact positional_spells hpos (h.2.trans_le hf) rfl
  · exact scientific_spells f hpos rfl

/-- A text that is a numeral does not start with a sign. -/
theorem parts?_of_unsigned? {cs : List Char} {n : Numeral} (h : unsigned? false cs = some n) :
    parts? false cs = some n := by
  have hsign : ∀ c r, c = '-' ∨ c = '+' → unsigned? false (c :: r) = none := by
    rintro c r (rfl | rfl)
    · rfl
    · rfl
  unfold parts?
  split
  · rw [hsign _ _ (Or.inl rfl)] at h
    contradiction
  · rw [hsign _ _ (Or.inr rfl)] at h
    contradiction
  · exact h

/-- What a written decimal with a sign or without is read as. -/
theorem Spells.strict? {admits : Numeral → Bool} {cs : List Char} {n : Numeral} {d : Decimal}
    (h : Spells cs n d)
    (hadmits : ∀ n : Numeral, n.isWhole = false → n.wholeDigits.length ≤ 2048 → admits n = true)
    (negative : Bool) :
    Numeral.strict? admits ((if negative then ['-'] else []) ++ cs) =
      some (.real (if negative then -d.toDouble else d.toDouble)) := by
  have hparts : parts? false ((if negative then ['-'] else []) ++ cs) =
      some { n with negative := negative } := by
    cases negative with
    | false => exact parts?_of_unsigned? (h.parts false)
    | true => exact h.parts true
  have hnumber : number? { n with negative := negative } =
      some (.real (if negative then -d.toDouble else d.toDouble)) := by
    have hreal := h.real
    have hfraction := h.fraction
    rw [← h.double]
    unfold number?
    simp only [h.lead, Bool.not_true, Bool.false_eq_true, if_false]
    split
    · next hnone hnone' =>
        rw [isWhole, hnone, hnone'] at hreal
        contradiction
    · contradiction
    · rfl
  unfold Numeral.strict?
  rw [hparts]
  have hadmitted := hadmits { n with negative := negative } h.real h.short
  simp [hadmitted, hnumber]

/-- The absolute value of a finite double is written as a decimal that reads back. -/
theorem shortest_spells {x : Float} (h : x.isFinite = true) :
    ∃ n d, Spells (Layout.snapshot.ofDecimal (.shortest x.abs)) n d ∧ d.toDouble = x.abs := by
  rcases abs_cases h with hzero | ⟨m, e, hm, hunpack⟩
  · have hwritten : Layout.snapshot.ofDecimal (.shortest 0) = ['0'] ++ '.' :: ['0'] := by decide
    rw [hzero, hwritten]
    exact ⟨⟨false, ['0'], some ['0'], none⟩, ⟨0, -1⟩,
      ⟨fun _ => rfl, rfl, nofun, rfl, by decide, rfl⟩, by decide⟩
  · have hreads := Decimal.shortest_readsAs hunpack
    obtain ⟨n, hspells⟩ := ofDecimal_spells (f := .snapshot) (by decide) hreads.pos
    exact ⟨n, _, hspells, hreads.toDouble⟩

/-- Every finite double comes back from a snapshot. -/
theorem strict?_snapshot {admits : Numeral → Bool}
    (hadmits : ∀ n : Numeral, n.isWhole = false → n.wholeDigits.length ≤ 2048 → admits n = true)
    {x : Float} (h : x.isFinite = true) :
    Numeral.strict? admits (Layout.snapshot.write x).toList = some (.real x) := by
  obtain ⟨n, d, hspells, hdouble⟩ := shortest_spells h
  have hstrict := hspells.strict? hadmits (decide (¬ x.toBits < Layout.signBit))
  have hsign : (if x.toBits < Layout.signBit then [] else ['-']) =
      if decide (¬ x.toBits < Layout.signBit) then ['-'] else [] := by
    simp only [decide_eq_true_eq, ite_not]
  rw [hdouble, sign_abs h] at hstrict
  rw [Layout.write, String.toList_ofList, hsign, hstrict]

/-! ## whole numbers -/

theorem parts?_ofInt (n : Int) :
    parts? false (toString n).toList =
      some ⟨decide (n < 0), Nat.toDigits 10 n.natAbs, none, none⟩ := by
  rw [Int.toString_eq_repr, Int.repr_eq_if]
  split_ifs with hneg
  · rw [Nat.toList_repr, show n.natAbs = n.toNat by omega, decide_eq_false (by omega)]
    exact parts?_of_unsigned? (unsigned?_digits (AllDigits.toDigits _))
  · rw [String.toList_append, Nat.toList_repr, show n.natAbs = (-n).toNat by omega,
      decide_eq_true (by omega)]
    exact unsigned?_digits (AllDigits.toDigits _)

/-- A whole number comes back, if a numeral of so many digits is admitted. -/
theorem strict?_ofInt (admits : Numeral → Bool) (n : Int) :
    Numeral.strict? admits (toString n).toList =
      if admits ⟨decide (n < 0), Nat.toDigits 10 n.natAbs, none, none⟩ then some (.whole n)
      else none := by
  have hnumber : number? ⟨decide (n < 0), Nat.toDigits 10 n.natAbs, none, none⟩ =
      some (.whole n) := by
    unfold number? toWhole
    simp only [isLeadFree_toDigits, digitsValue_toDigits, Bool.not_true, Bool.false_eq_true,
      if_false, decide_eq_true_eq]
    split_ifs <;> congr <;> omega
  unfold Numeral.strict?
  rw [parts?_ofInt]
  split_ifs with hadmits <;> simp [hadmits, hnumber]

end Numeral

end MealRota
