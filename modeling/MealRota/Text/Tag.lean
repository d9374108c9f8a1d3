import MealRota.Text.Blank
import MealRota.Text.Lowercase

/-!
# MealRota.Text.Tag

The normal form of a dietary label.  Labels that differ in case, in outer blanks
or in the choice of hyphen, space and underscore between words are the same label.
-/

namespace MealRota.Text

/-- An underscore for a hyphen or a plain space; any other character as it is. -/
def joinWords (c : Char) : Char := if c = '-' ∨ c = ' ' then '_' else c

/-- The normal form of a dietary label: trimmed, in lower case, words joined by underscores. -/
def normalizeTag (tag : String) : String :=
  String.ofList ((lower (trim tag)).toList.map joinWords)

end MealRota.Text
