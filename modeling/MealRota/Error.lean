import MealRota.Calendar.Iso
import MealRota.Recipe.Kinds

/-!
# MealRota.Error

Why planning can fail.  Each failure names its cause; `PlanError.message` words
it and `PlanError.name` gives the word under which it is logged.  The failures
for which `isPlanning` holds are those a caller is expected to handle; the others
are misuse or numbers and days out of range.  A failure whose message would hold a
number of too many digits is raised as another one, `PlanError.raised`.
-/

namespace MealRota

/-! ## why a candidate is turned down -/

/-- The hard constraints that can turn a candidate down. -/
inductive Rejection where
  | overTimeCeiling
  | usedInCycle
  | aboveSkillLevel
  | consecutiveComplex
  deriving DecidableEq

/-- The name of a constraint. -/
def Rejection.name : Rejection → String
  | overTimeCeiling => "over_time_ceiling"
  | usedInCycle => "used_in_cycle"
  | aboveSkillLevel => "above_skill_level"
  | consecutiveComplex => "consecutive_complex"

/-- How many candidates each constraint turned down, in the order of first occurrence. -/
abbrev Rejections := List (Rejection × Nat)

/-- The counts as data. -/
def Rejections.toValue (l : Rejections) : Value :=
  .record (l.map fun p => (p.1.name, .ofNat p.2))

/-! ## causes -/

/-- What can be wrong with a date. -/
inductive DateProblem where
  /-- The value given is not an ISO date. -/
  | notIso (given : Value) (problem : IsoProblem)
  /-- A week was to start on a day other than a Monday. -/
  | notMonday (date : Date)
  /-- No week of the plan has the day. -/
  | notInPlan (date : Date)

namespace DateProblem

/-- The wording of a problem. -/
def detail : DateProblem → String
  | notIso given problem =>
      given.display ++ " is not an ISO 8601 date (" ++ problem.message ++ ")"
  | notMonday date =>
      "Week start date " ++ date.iso ++ " must be a Monday (found " ++ date.weekday.name ++ ")"
  | notInPlan date => date.iso ++ " is not part of the meal plan"

end DateProblem

/-- Why no assignment could be made. -/
inductive SearchProblem where
  /-- Every candidate for a required course is turned down. -/
  | noCandidate (course : Course) (date : Date) (rejections : Rejections)
  /-- A main course stands twice in a week that could have done without. -/
  | repeatedMains (ids : List String) (weekStart : Date) (available : Int)
  /-- Nothing can take the place of the recipe in a slot. -/
  | noAlternative (course : Course) (date : Date)

namespace SearchProblem

/-- The wording of a problem. -/
def detail : SearchProblem → String
  | noCandidate course date rejections =>
      "No " ++ course.name ++ " recipe satisfies the constraints for " ++ date.iso ++
        " (rejections: " ++ rejections.toValue.display ++ ")"
  | repeatedMains ids weekStart available =>
      "Main course(s) " ++ ", ".intercalate ids ++ " repeated in week of " ++ weekStart.iso ++
        " with " ++ toString available ++ " main courses available"
  | noAlternative course date => "No alternative " ++ course.name ++ " recipe for " ++ date.iso

end SearchProblem

/-- What can be wrong with a rotation state. -/
inductive RotationProblem where
  /-- A stored snapshot does not describe a state. -/
  | malformed (issues : Nat)
  /-- A used recipe is not among the recipes. -/
  | unknownRecipe (course : Course) (id : String)
  /-- A used recipe belongs to another course. -/
  | misfiled (id : String) (tracked actual : Course)

namespace RotationProblem

/-- The wording of a problem. -/
def detail : RotationProblem → String
  | malformed issues =>
      "Malformed rotation state snapshot: " ++ toString issues ++ " error(s)"
  | unknownRecipe course id =>
      course.name ++ " recipe " ++ id ++ " is no longer in the recipe pool"
  | misfiled id tracked actual =>
      "Recipe " ++ id ++ " is tracked as " ++ tracked.name ++ " but is a " ++ actual.name

end RotationProblem

/-! ## failures -/

/-- Why planning fails. -/
inductive PlanError where
  /-- A required course has too few eligible recipes. -/
  | insufficientRecipes (minimum current : Int)
  /-- There is no course of that name. -/
  | unknownCourse (given : Value)
  /-- A recipe chosen for a slot belongs to another course. -/
  | wrongCourse (course : Course)
  | invalidDate (problem : DateProblem)
  | invalidWeekCount (count minimum maximum : Int)
  | recipeNotFound (id : String)
  /-- The slot to be changed is empty. -/
  | emptySlot (course : Course) (date : Date)
  | alreadyAssigned (id : String)
  | alreadyUsed (id : String)
  | searchFailed (problem : SearchProblem)
  | invalidRotation (problem : RotationProblem)
  /-- The plan has no week of that index. -/
  | weekOutOfRange (index : Int) (weeks : Nat)
  /-- A recipe was to be given back that is not marked as used. -/
  | notMarked (id : String) (cycle : Nat)
  /-- A day beyond the calendar was asked for. -/
  | dateOutOfRange
  /-- A whole number is beyond the range of the doubles. -/
  | numberOutOfRange
  /-- A fraction of whole numbers is beyond the range of the doubles. -/
  | quotientOutOfRange
  /-- A whole number has too many digits to be written in a text. -/
  | numberTooLong

/-! ## sentences -/

namespace Sentence

/-- That a required course has too few recipes. -/
def insufficientRecipes (minimum current : String) : String :=
  "Insufficient recipes: need at least " ++ minimum ++ " favorite recipes, but only have " ++
    current

/-- That a course is not known or not the right one. -/
def invalidCourse (given : String) : String := "Invalid meal type: " ++ given

/-- That a date is wrong. -/
def invalidDate (detail : String) : String := "Invalid date: " ++ detail

/-- That a number of weeks is not in its range. -/
def invalidWeekCount (count minimum maximum : String) : String :=
  "Invalid week count: " ++ count ++ " (must be between " ++ minimum ++ " and " ++ maximum ++ ")"

/-- That there is no such recipe. -/
def recipeNotFound (given : String) : String := "Recipe not found: " ++ given

/-- That a slot already has a recipe. -/
def alreadyAssigned (id : String) : String := "Recipe already assigned to this slot: " ++ id

/-- That a recipe was used in the cycle. -/
def alreadyUsed (id : String) : String :=
  "Recipe already used in the current rotation cycle: " ++ id

/-- That no assignment could be made. -/
def searchFailed (detail : String) : String :=
  "Algorithm failed to generate meal plan: " ++ detail

/-- That a rotation state is wrong. -/
def invalidRotation (detail : String) : String := "Invalid rotation state: " ++ detail

end Sentence

namespace PlanError

/-- The wording of a failure. -/
def message : PlanError → String
  | insufficientRecipes minimum current =>
      Sentence.insufficientRecipes (toString minimum) (toString current)
  | unknownCourse given => Sentence.invalidCourse given.plain
  | wrongCourse course => Sentence.invalidCourse course.name
  | invalidDate problem => Sentence.invalidDate problem.detail
  | invalidWeekCount count minimum maximum =>
      Sentence.invalidWeekCount (toString count) (toString minimum) (toString maximum)
  | recipeNotFound id => Sentence.recipeNotFound id
  | emptySlot course date => Sentence.recipeNotFound (course.name ++ " on " ++ date.iso)
  | alreadyAssigned id => Sentence.alreadyAssigned id
  | alreadyUsed id => Sentence.alreadyUsed id
  | searchFailed problem => Sentence.searchFailed problem.detail
  | invalidRotation problem => Sentence.invalidRotation problem.detail
  | weekOutOfRange index weeks =>
      "Week index " ++ toString index ++ " out of range for a " ++ toString weeks ++ "-week plan"
  | notMarked id cycle => "Recipe " ++ id ++ " was not marked as used in cycle " ++ toString cycle
  | dateOutOfRange => "date value out of range"
  | numberOutOfRange => "int too large to convert to float"
  | quotientOutOfRange => "integer division result too large for a float"
  | numberTooLong =>
      "Exceeds the limit (" ++ toString mostDigits ++ " digits) for integer string conversion; " ++
        "use sys.set_int_max_str_digits() to increase the limit"

/-- The word for the kind of failure. -/
def name : PlanError → String
  | insufficientRecipes .. => "InsufficientRecipes"
  | unknownCourse .. | wrongCourse .. => "InvalidMealType"
  | invalidDate .. => "InvalidDate"
  | invalidWeekCount .. => "InvalidWeekCount"
  | recipeNotFound .. | emptySlot .. => "RecipeNotFound"
  | alreadyAssigned .. => "RecipeAlreadyAssigned"
  | alreadyUsed .. => "RecipeAlreadyUsedInRotation"
  | searchFailed .. => "AlgorithmError"
  | invalidRotation .. => "RotationStateError"
  | weekOutOfRange .. => "WeekOutOfRange"
  | notMarked .. => "NotMarked"
  | dateOutOfRange => "DateOutOfRange"
  | numberOutOfRange | quotientOutOfRange => "NumberOutOfRange"
  | numberTooLong => "NumberTooLong"

/-- Whether the failure is one that callers of the planner are expected to handle. -/
def isPlanning : PlanError → Bool
  | weekOutOfRange .. | notMarked .. | dateOutOfRange | numberOutOfRange | quotientOutOfRange
  | numberTooLong => false
  | _ => true

/-- The numbers in the message of a failure that a caller or a state supplies.  The others are
limits and counts of what is in memory, none of which can be too long. -/
def supplied : PlanError → List Int
  | unknownCourse given | invalidDate (.notIso given _) => given.wholes
  | invalidWeekCount count .. => [count]
  | weekOutOfRange index _ => [index]
  | notMarked _ cycle => [cycle]
  | _ => []

/-- What is raised for a failure: the failure itself if its message can be written. -/
def raised (e : PlanError) : PlanError := if e.supplied.all isWritable then e else .numberTooLong

end PlanError

end MealRota
