import MealRota.Form.Field
import MealRota.Plan.Basic

/-!
# MealRota.Form.Plan

Reading assignments.  An assignment is given by its day, its course, its recipe
and possibly its side dish; the rest of it is not part of the form.
-/

namespace MealRota

open Form

/-- The assignment that the fields of a record describe. -/
def Assignment.ofFields (fields : List (String × Value)) : Checked Assignment :=
  (fun date course recipeId sideId => ⟨date, course, recipeId, sideId, false, none⟩)
    <$> required fields "date" Form.date
    <*> required fields "course_type" (member Course.ofName?)
    <*> required fields "recipe_id" text
    <*> Form.optional fields "accompaniment_recipe_id" none (nullable text)

/-- The fields of an assignment, in the order in which a list gives them. -/
def Assignment.fieldNames : List String :=
  ["date", "course_type", "recipe_id", "accompaniment_recipe_id"]

/-- The assignment that a list of values describes, fields at its end being left out. -/
def Assignment.ofList (values : List Value) : Checked Assignment :=
  Assignment.ofFields (Assignment.fieldNames.zip values)

end MealRota
