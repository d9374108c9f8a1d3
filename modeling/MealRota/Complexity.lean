import MealRota.Error
import MealRota.Number.Basic
import MealRota.Recipe.Basic

/-!
# MealRota.Complexity

How demanding a recipe is: a score, computed by a formula from the number of
ingredients, of steps and of hours of advance preparation unless the recipe
brings its own, and the level that the score falls in.
-/

namespace MealRota

/-! ## levels -/

/-- Scores from here on are no longer simple. -/
def moderateFrom : Float := 30

/-- Scores above this are complex. -/
def complexAbove : Float := 60

namespace Complexity

/-- The level of a score. -/
def ofScore (score : Float) : Complexity :=
  if score < moderateFrom then .simple else if score ≤ complexAbove then .moderate else .complex

end Complexity

/-- Whether a score, if there is one, is above the complex threshold. -/
def isComplex : Option Float → Bool
  | none => false
  | some score => complexAbove < score

/-! ## formulas -/

/-- How complexity scores are computed. -/
inductive Formula where
  /-- Three tenths per ingredient, four tenths per step, and a surcharge for advance preparation. -/
  | standard
  /-- A sum with freely chosen weights. -/
  | weighted (perIngredient perStep perHour : Number)
  /-- Any other function of ingredients, steps and hours; it has no score for numbers with which
  it cannot do its arithmetic in doubles. -/
  | custom (score? : (ingredients steps : Number) → (hours : Option Number) → Option Float)

namespace Formula

/-- Advance preparation of this many hours counts as long. -/
def longAdvanceHours : Int := 4

/-- What advance preparation counts in the standard formula, before weighting. -/
def advanceMultiplier : Option Number → Float
  | none => 0
  | some hours => if hours.isZero then 0 else if hours.isBelow longAdvanceHours then 50 else 100

/-- The score of the standard formula. -/
def standardScore? (ingredients steps : Number) (hours : Option Number) : Option Float := do
  return (← ingredients.toDouble?) * 0.3 + (← steps.toDouble?) * 0.4
    + advanceMultiplier hours * 0.3

/-- A sum weighted by `a`, `b` and `c`. -/
def weightedScore? (a b c ingredients steps : Number) (hours : Option Number) : Option Float := do
  let base ← (← ingredients.mul? a).add? (← steps.mul? b)
  let total ← base.add? (← (hours.getD (.whole 0)).mul? c)
  total.toDouble?

/-- The score by the formula. -/
def score (f : Formula) (ingredients steps : Number) (hours : Option Number) :
    Except PlanError Float :=
  let x := match f with
    | standard => standardScore? ingredients steps hours
    | weighted a b c => weightedScore? a b c ingredients steps hours
    | custom score? => score? ingredients steps hours
  match x with
  | some score => .ok score
  | none => .error .numberOutOfRange

end Formula

/-- The complexity score of a recipe: its own, or else the one by the formula. -/
def Recipe.complexityScore (f : Formula) (r : Recipe) : Except PlanError Float :=
  match r.complexity with
  | some score => .ok score
  | none => f.score (.whole r.ingredients) (.whole r.steps) (r.advanceHours.map fun h => .whole h)

end MealRota
