import MealRota.Recipe.Kinds
import MealRota.Rotation.Basic

/-!
# MealRota.Plan.Basic

Meal plans: assignments of recipes to slots, in weeks, together with the
rotation state after the last of them.
-/

namespace MealRota

/-- A recipe in a slot. -/
structure Assignment where
  date : Date
  course : Course
  recipeId : String
  sideId : Option String
  /-- Whether something has to be prepared ahead of the day. -/
  needsAdvance : Bool
  reasoning : Option String
  deriving DecidableEq

/-- A planned week. -/
structure Week where
  start : Date
  finish : Date
  assignments : List Assignment
  status : WeekStatus
  deriving DecidableEq

/-- A plan of several weeks and the rotation state after it. -/
structure Plan where
  weeks : List Week
  rotation : Rotation
  deriving DecidableEq

namespace Assignment

/-- Whether the assignment fills the slot of a day and a course. -/
def fills (a : Assignment) (date : Date) (course : Course) : Bool :=
  a.date = date && a.course = course

/-- The recipes of an assignment: its own and that of the side dish. -/
def ids (a : Assignment) : List String := a.recipeId :: a.sideId.toList

end Assignment

namespace Week

/-- The main courses of the week, in slot order. -/
def mainIds (w : Week) : List String :=
  (w.assignments.filter fun a => a.course = .main).map (·.recipeId)

/-- The first assignment that fills a slot. -/
def assignmentFor? (w : Week) (date : Date) (course : Course) : Option Assignment :=
  w.assignments.find? (·.fills date course)

/-- Whether the week has a day. -/
def covers (w : Week) (date : Date) : Bool :=
  w.start.ordinal ≤ date.ordinal && date.ordinal ≤ w.finish.ordinal

end Week

namespace Plan

/-- Every assignment of the plan, in order. -/
def assignments (p : Plan) : List Assignment := p.weeks.flatMap (·.assignments)

/-- Every main course of the plan, in order. -/
def mainIds (p : Plan) : List String := p.weeks.flatMap (·.mainIds)

/-- The index of the first week that has a day. -/
def weekIndexFor? (p : Plan) (date : Date) : Option Nat :=
  p.weeks.findIdx? (·.covers date)

end Plan

end MealRota
