import Mathlib

/-!
# MealRota.Proofs.DoubleOrder

The order of the doubles that are numbers.  Each of them has a place in a linear
order, and comparing two doubles is comparing their places: by the sign first,
then by the exponent, then by the mantissa.

* `compare_eq_place` — comparing is comparing places;
* `lt_iff_place`, `beq_iff_place` — what is less, and what is equal, zeros of both signs included.
-/

namespace MealRota

open Float.Model Float.Model.UnpackedFloat

/-! ## comparing whole numbers -/

theorem compare_natCast (m n : ℕ) : compare (m : ℤ) n = compare m n := by
  rw [← cmp_eq_compare, ← cmp_eq_compare]
  exact Nat.strictMono_cast.cmp_map_eq m n

theorem compare_neg (a b : ℤ) : compare (-a) (-b) = (compare a b).swap := by
  have hanti : StrictAnti fun a : ℤ => -a := fun _ _ => Int.neg_lt_neg
  rw [← cmp_eq_compare, ← cmp_eq_compare, cmp_swap]
  exact hanti.cmp_map_eq a b

theorem compare_toLex (i a b c d : ℤ) :
    compare (toLex (i, toLex (a, b))) (toLex (i, toLex (c, d))) =
      (compare a c).then (compare b d) := by
  change (compare i i).then ((compare a c).then (compare b d)) = _
  rw [compare_eq_iff_eq.mpr rfl]
  rfl

/-! ## places -/

/-- The place of what a double is made of: larger numbers have larger places. -/
def placeOf : UnpackedFloat → ℤ ×ₗ ℤ ×ₗ ℤ
  | .notANumber | .zero _ => toLex (0, toLex (0, 0))
  | .infinity s => toLex (s.apply 2, toLex (0, 0))
  | .finite s m e _ => toLex (s.apply 1, toLex (s.apply e, s.apply m))

theorem compare_finite_positive (m n : ℕ) (e f : ℤ) (hm : 0 < m) (hn : 0 < n) :
    UnpackedFloat.compare (.finite .positive m e hm) (.finite .positive n f hn) =
      some (compare (placeOf (.finite .positive m e hm)) (placeOf (.finite .positive n f hn))) := by
  change some ((compare e f).then (compare m n)) =
    some (compare (toLex (1, toLex (e, (m : ℤ)))) (toLex (1, toLex (f, (n : ℤ)))))
  rw [compare_toLex, compare_natCast]

theorem compare_finite_negative (m n : ℕ) (e f : ℤ) (hm : 0 < m) (hn : 0 < n) :
    UnpackedFloat.compare (.finite .negative m e hm) (.finite .negative n f hn) =
      some (compare (placeOf (.finite .negative m e hm)) (placeOf (.finite .negative n f hn))) := by
  change some ((compare e f).then (compare m n)).swap =
    some (compare (toLex (-1, toLex (-e, -(m : ℤ)))) (toLex (-1, toLex (-f, -(n : ℤ)))))
  rw [compare_toLex, compare_neg, compare_neg, compare_natCast, Ordering.swap_then]

theorem compare_eq_placeOf {u v : UnpackedFloat} (hu : u ≠ .notANumber) (hv : v ≠ .notANumber) :
    u.compare v = some (compare (placeOf u) (placeOf v)) := by
  cases u with
  | notANumber => contradiction
  | infinity s =>
      cases v with
      | notANumber => contradiction
      | infinity t => cases s <;> cases t <;> rfl
      | zero t => cases s <;> rfl
      | finite t n f hn => cases s <;> cases t <;> rfl
  | zero s =>
      cases v with
      | notANumber => contradiction
      | infinity t => cases t <;> rfl
      | zero t => rfl
      | finite t n f hn => cases t <;> rfl
  | finite s m e hm =>
      cases v with
      | notANumber => contradiction
      | infinity t => cases s <;> cases t <;> rfl
      | zero t => cases s <;> rfl
      | finite t n f hn =>
          cases s with
          | negative =>
              cases t with
              | negative => exact compare_finite_negative m n e f hm hn
              | positive => rfl
          | positive =>
              cases t with
              | negative => rfl
              | positive => exact compare_finite_positive m n e f hm hn

/-- The place of a double in the order of the doubles. -/
def place (x : Float) : ℤ ×ₗ ℤ ×ₗ ℤ := placeOf x.toModel.unpack

section

variable {x y : Float} (hx : x.isNaN = false) (hy : y.isNaN = false)

include hx hy

theorem compare_eq_place :
    x.toModel.unpack.compare y.toModel.unpack = some (compare (place x) (place y)) := by
  have hnumber : ∀ z : Float, z.isNaN = false → z.toModel.unpack ≠ .notANumber := by
    intro z hz hnan
    have hz' : z.toModel.unpack.isNaN = false := hz
    rw [hnan] at hz'
    contradiction
  exact compare_eq_placeOf (hnumber x hx) (hnumber y hy)

theorem lt_iff_place : x < y ↔ place x < place y := by
  rw [← compare_lt_iff_lt]
  change decide (x.toModel.unpack.lt y.toModel.unpack = true) = true ↔ _
  unfold UnpackedFloat.lt
  rw [compare_eq_place hx hy]
  simp

theorem beq_iff_place : (x == y) = true ↔ place x = place y := by
  rw [← compare_eq_iff_eq (a := place x)]
  change x.toModel.unpack.beq y.toModel.unpack = true ↔ _
  unfold UnpackedFloat.beq
  rw [compare_eq_place hx hy]
  simp

end

end MealRota
