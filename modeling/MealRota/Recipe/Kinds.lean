/-!
# MealRota.Recipe.Kinds

The fixed vocabularies by which recipes and plans are classified.  Each has its
members in ascending order of their names, and a name is read back by looking
through them.
-/

namespace MealRota

/-- The member whose name is `s`. -/
def withName? {α : Type _} (name : α → String) (all : List α) (s : String) : Option α :=
  all.find? fun a => name a = s

/-! ## courses -/

/-- The courses that a recipe can fill. -/
inductive Course where
  | appetizer
  | main
  | dessert
  | side
  deriving DecidableEq

namespace Course

/-- The name of a course. -/
def name : Course → String
  | appetizer => "appetizer"
  | main => "main_course"
  | dessert => "dessert"
  | side => "accompaniment"

/-- Every course, by name. -/
def all : List Course := [side, appetizer, dessert, main]

/-- The course of that name. -/
def ofName? (s : String) : Option Course := withName? name all s

theorem mem_all (c : Course) : c ∈ all := by cases c <;> decide

/-- The courses of a day, in the order in which they are planned. -/
def daily : List Course := [appetizer, main, dessert]

/-- Whether a day cannot do without the course. -/
def isRequired (c : Course) : Bool := c = main

end Course

/-! ## cuisines -/

/-- The cuisines whose use is counted for variety. -/
inductive Cuisine where
  | italian
  | indian
  | mexican
  | chinese
  | japanese
  | french
  | american
  | mediterranean
  | thai
  | korean
  | vietnamese
  | caribbean
  | other
  deriving DecidableEq

namespace Cuisine

/-- The name of a cuisine. -/
def name : Cuisine → String
  | italian => "italian"
  | indian => "indian"
  | mexican => "mexican"
  | chinese => "chinese"
  | japanese => "japanese"
  | french => "french"
  | american => "american"
  | mediterranean => "mediterranean"
  | thai => "thai"
  | korean => "korean"
  | vietnamese => "vietnamese"
  | caribbean => "caribbean"
  | other => "other"

/-- Every cuisine, by name. -/
def all : List Cuisine :=
  [american, caribbean, chinese, french, indian, italian, japanese, korean, mediterranean,
   mexican, other, thai, vietnamese]

/-- The cuisine of that name. -/
def ofName? (s : String) : Option Cuisine := withName? name all s

theorem mem_all (c : Cuisine) : c ∈ all := by cases c <;> decide

end Cuisine

/-! ## side dishes -/

/-- The categories of side dishes. -/
inductive SideCategory where
  | pasta
  | rice
  | fries
  | salad
  | bread
  | vegetable
  | other
  deriving DecidableEq

namespace SideCategory

/-- The name of a category. -/
def name : SideCategory → String
  | pasta => "pasta"
  | rice => "rice"
  | fries => "fries"
  | salad => "salad"
  | bread => "bread"
  | vegetable => "vegetable"
  | other => "other"

/-- Every category, by name. -/
def all : List SideCategory := [bread, fries, other, pasta, rice, salad, vegetable]

/-- The category of that name. -/
def ofName? (s : String) : Option SideCategory := withName? name all s

end SideCategory

/-! ## complexity and skill -/

/-- How demanding a recipe is. -/
inductive Complexity where
  | simple
  | moderate
  | complex
  deriving DecidableEq

namespace Complexity

/-- The name of a level. -/
def name : Complexity → String
  | simple => "simple"
  | moderate => "moderate"
  | complex => "complex"

/-- The place of a level, the least demanding first. -/
def rank : Complexity → Nat
  | simple => 0
  | moderate => 1
  | complex => 2

end Complexity

/-- How experienced the cook is. -/
inductive SkillLevel where
  | beginner
  | intermediate
  | advanced
  deriving DecidableEq

namespace SkillLevel

/-- The name of a skill level. -/
def name : SkillLevel → String
  | beginner => "beginner"
  | intermediate => "intermediate"
  | advanced => "advanced"

/-- Every skill level, by name. -/
def all : List SkillLevel := [advanced, beginner, intermediate]

/-- The skill level of that name. -/
def ofName? (s : String) : Option SkillLevel := withName? name all s

/-- The most demanding complexity that a cook of this skill takes on. -/
def limit : SkillLevel → Complexity
  | beginner => .simple
  | intermediate => .moderate
  | advanced => .complex

/-- Whether a complexity is within the skill. -/
def allows (s : SkillLevel) (c : Complexity) : Bool := c.rank ≤ s.limit.rank

end SkillLevel

/-! ## diets and weeks -/

/-- How dietary restrictions are matched against the labels of a recipe. -/
inductive DietMode where
  /-- The recipe has every label asked for. -/
  | all
  /-- The recipe has at least one label asked for. -/
  | any
  deriving DecidableEq

namespace DietMode

/-- The name of a mode. -/
def name : DietMode → String
  | all => "all"
  | any => "any"

/-- The mode of that name. -/
def ofName? (s : String) : Option DietMode := withName? name [.all, .any] s

end DietMode

/-- The stages in the life of a planned week. -/
inductive WeekStatus where
  | idle
  | active
  | archived
  deriving DecidableEq

namespace WeekStatus

/-- The name of a stage. -/
def name : WeekStatus → String
  | idle => "idle"
  | active => "active"
  | archived => "archived"

/-- The stage of that name. -/
def ofName? (s : String) : Option WeekStatus := withName? name [.active, .archived, .idle] s

end WeekStatus

end MealRota
