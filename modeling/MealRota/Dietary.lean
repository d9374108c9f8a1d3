import MealRota.Recipe.Basic
import MealRota.Text.Tag

/-!
# MealRota.Dietary

Dietary restrictions: a hard filter that runs before anything else, so that a
recipe which fails it is never seen by planning.
-/

namespace MealRota

/-- Whether a recipe meets the labels asked for, which are in normal form.  Every recipe does
if none is asked for. -/
def meetsDiet (wanted : TextSet) (mode : DietMode) (r : Recipe) : Bool :=
  wanted.isEmpty ||
    match mode with
    | .all => wanted.isSubset r.tags
    | .any => wanted.meets r.tags

/-- The recipes that meet the restrictions, in their order. -/
def filterByDiet (recipes : List Recipe) (restrictions : List String) (mode : DietMode) :
    List Recipe :=
  recipes.filter (meetsDiet (TextSet.ofList (restrictions.map Text.normalizeTag)) mode)

end MealRota
