import MealRota.Order.TextSet
import MealRota.Recipe.Kinds

/-!
# MealRota.Recipe.Basic

Recipes as planning sees them, and the preferences of the cook.
-/

namespace MealRota

/-- A recipe. -/
structure Recipe where
  id : String
  title : String
  course : Course
  ingredients : Nat
  steps : Nat
  prepMinutes : Option Nat
  cookMinutes : Option Nat
  /-- Hours of preparation ahead of the day of the meal, such as a marinade. -/
  advanceHours : Option Nat
  /-- A complexity score that stands in place of a computed one. -/
  complexity : Option Float
  /-- Dietary labels in normal form. -/
  tags : TextSet
  cuisine : Cuisine
  /-- Whether a main course comes with a side dish. -/
  takesSide : Bool
  /-- The categories of side dishes that suit a main course; any if there are none. -/
  preferredSides : List SideCategory
  /-- The category of a recipe that is itself a side dish. -/
  sideCategory : Option SideCategory
  deriving DecidableEq

namespace Recipe

/-- Minutes of preparation and cooking, a time not given counting as none. -/
def totalMinutes (r : Recipe) : Nat := r.prepMinutes.getD 0 + r.cookMinutes.getD 0

/-- Whether something has to be prepared ahead of the day. -/
def needsAdvance (r : Recipe) : Bool := 0 < r.advanceHours.getD 0

end Recipe

/-- What a cook wants of a plan. -/
structure Preferences where
  /-- Dietary labels asked for, in normal form. -/
  restrictions : TextSet := TextSet.empty
  mode : DietMode := .all
  /-- The most minutes for a meal from Monday to Friday. -/
  weeknightMinutes : Nat := 30
  /-- The most minutes for a meal on Saturday or Sunday. -/
  weekendMinutes : Nat := 90
  skill : SkillLevel := .advanced
  /-- Whether two complex recipes must not follow each other. -/
  avoidConsecutiveComplex : Bool := true
  /-- From 0, where only the use of time counts, to 1, where only variety of cuisine does. -/
  varietyWeight : Float := 0.7
  deriving DecidableEq

namespace Preferences

instance : Inhabited Preferences := ⟨{}⟩

/-- The most minutes for a meal. -/
def ceiling (p : Preferences) (weekend : Bool) : Nat :=
  if weekend then p.weekendMinutes else p.weeknightMinutes

end Preferences

end MealRota
