import MealRota.Form.Field
import MealRota.Form.Labels
import MealRota.Recipe.Basic

/-!
# MealRota.Form.Recipe

Reading recipes and preferences.  Fields that are not known are passed over.
-/

namespace MealRota

open Form

/-- The categories of a list, each once, by name. -/
def SideCategory.distinct (l : List SideCategory) : List SideCategory :=
  SideCategory.all.filter fun c => l.contains c

namespace Recipe

/-- The fields of a recipe whose dietary labels are already read. -/
def ofFields (fields : List (String × Value)) (tags : TextSet) : Checked Recipe :=
  (fun id title course ingredients steps prepMinutes cookMinutes advanceHours complexity cuisine
      takesSide preferredSides sideCategory =>
    { id, title, course, ingredients, steps, prepMinutes, cookMinutes, advanceHours, complexity,
      tags, cuisine, takesSide, preferredSides := SideCategory.distinct preferredSides,
      sideCategory })
    <$> required fields "id" nonemptyText
    <*> required fields "title" text
    <*> required fields "recipe_type" (member Course.ofName?)
    <*> Form.optional fields "ingredients_count" 0 (wholeFrom 0)
    <*> Form.optional fields "instructions_count" 0 (wholeFrom 0)
    <*> Form.optional fields "prep_time_min" none (nullable (wholeFrom 0))
    <*> Form.optional fields "cook_time_min" none (nullable (wholeFrom 0))
    <*> Form.optional fields "advance_prep_hours" none (nullable (wholeFrom 0))
    <*> Form.optional fields "complexity" none (nullable doubleFromZero)
    <*> Form.optional fields "cuisine" .other (member Cuisine.ofName?)
    <*> Form.optional fields "accepts_accompaniment" false truth
    <*> Form.optional fields "preferred_accompaniment_categories" []
          (setOf .notFrozenSet (member SideCategory.ofName?))
    <*> Form.optional fields "accompaniment_category" none
          (nullable (member SideCategory.ofName?))

/-- The recipe that a value describes. -/
def ofValue : Value → Except Refusal Recipe
  | .record fields =>
    match labelSet fields "dietary_tags" with
    | .error f => .error (.fault f)
    | .ok tags => (ofFields fields tags).toExcept
  | _ => .error (.issues [⟨[], .notRecord⟩])

end Recipe

namespace Preferences

/-- Refuse preferences that leave no time on any day. -/
def checkCeilings (p : Preferences) : Checked Preferences :=
  if p.weeknightMinutes = 0 ∧ p.weekendMinutes = 0 then .issue .inconsistent else .ok p

/-- The fields of preferences whose dietary labels are already read. -/
def ofFields (fields : List (String × Value)) (restrictions : TextSet) : Checked Preferences :=
  let d : Preferences := {}
  (fun mode weeknightMinutes weekendMinutes skill avoidConsecutiveComplex varietyWeight =>
    { restrictions, mode, weeknightMinutes, weekendMinutes, skill, avoidConsecutiveComplex,
      varietyWeight : Preferences })
    <$> Form.optional fields "dietary_match_mode" d.mode (member DietMode.ofName?)
    <*> Form.optional fields "max_prep_time_weeknight" d.weeknightMinutes (wholeFrom 0)
    <*> Form.optional fields "max_prep_time_weekend" d.weekendMinutes (wholeFrom 0)
    <*> Form.optional fields "skill_level" d.skill (member SkillLevel.ofName?)
    <*> Form.optional fields "avoid_consecutive_complex" d.avoidConsecutiveComplex truth
    <*> Form.optional fields "cuisine_variety_weight" d.varietyWeight share

/-- The preferences that a value describes. -/
def ofValue : Value → Except Refusal Preferences
  | .record fields =>
    match labelSet fields "dietary_restrictions" with
    | .error f => .error (.fault f)
    | .ok restrictions => ((ofFields fields restrictions).andThen checkCeilings).toExcept
  | _ => .error (.issues [⟨[], .notRecord⟩])

end Preferences

end MealRota
