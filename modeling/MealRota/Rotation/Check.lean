import MealRota.Recipe.Basic
import MealRota.Rotation.Basic

/-!
# MealRota.Rotation.Check

Whether a rotation state fits the recipes at hand: every used recipe must be
among them and belong to the course under which it is marked.  Where recipes
share an id, the last one counts.
-/

namespace MealRota

/-- The last recipe of that id. -/
def findLast? (recipes : List Recipe) (id : String) : Option Recipe :=
  recipes.reverse.find? fun r => r.id = id

namespace Rotation

/-- What is wrong with a recipe marked as used for a course. -/
def problemOf? (recipes : List Recipe) (c : Course) (id : String) : Option RotationProblem :=
  match findLast? recipes id with
  | none => some (.unknownRecipe c id)
  | some r => if r.course = c then none else some (.misfiled id c r.course)

/-- The first problem of a state, by courses in order of entry and ids in ascending order. -/
def problem? (recipes : List Recipe) (t : Rotation) : Option RotationProblem :=
  t.used.entries.findSome? fun p => p.2.toList.findSome? (problemOf? recipes p.1)

/-- Refuse a state that does not fit the recipes. -/
def check (recipes : List Recipe) (t : Rotation) : Except PlanError Unit :=
  match t.problem? recipes with
  | none => .ok ()
  | some problem => .error (.invalidRotation problem)

end Rotation

end MealRota
