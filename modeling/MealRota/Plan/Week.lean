import MealRota.Plan.Basic
import MealRota.Reading
import MealRota.Reasoning
import MealRota.Selection

/-!
# MealRota.Plan.Week

Planning one week: its slots are filled day by day and, within a day, course by
course, each from the rotation state that the one before it left.

Main courses do not repeat within the week while there are enough of them.
Locked main courses, which other weeks hold in the current cycle, are left out
until the cycle of the main courses begins anew.
-/

namespace MealRota

/-- The assignment that a choice makes of a slot. -/
def Choice.toAssignment (f : Formula) (choice : Choice) (course : Course) (slot : SlotContext) :
    Except PlanError Assignment :=
  (reasoning f choice.recipe course slot).map fun reason =>
    { date := slot.date
      course
      recipeId := choice.recipe.id
      sideId := choice.side.map (·.id)
      needsAdvance := choice.recipe.needsAdvance
      reasoning := some reason }

/-! ## uniqueness of main courses -/

/-- The ids that occur more than once, in ascending order. -/
def repeatedIds (ids : List String) : List String :=
  (TextSet.ofList ids).toList.filter fun id => decide (1 < ids.count id)

/-- Refuse a week in which a main course stands twice although `available` would have sufficed. -/
def checkMainsDistinct (start : Date) (assignments : List Assignment) (available : Int) :
    Except PlanError Unit :=
  let mains := (assignments.filter fun a => a.course = .main).map (·.recipeId)
  let repeated := repeatedIds mains
  let distinct : Int := (TextSet.ofList mains).size
  if !repeated.isEmpty && decide (distinct < min (mains.length : Int) available) then
    .error (.searchFailed (.repeatedMains repeated start available))
  else .ok ()

/-! ## filling the slots of a week -/

/-- A week in the making. -/
structure WeekDraft where
  assignments : List Assignment
  /-- The main courses of the week so far, each once. -/
  mains : List String
  /-- The main courses that other weeks hold in the current cycle. -/
  locked : List String

/-- The slots of some days, in the order in which they are filled. -/
def slotsOf (days : List Date) : List (Date × Course) :=
  days.flatMap fun day => Course.daily.map fun course => (day, course)

namespace Kitchen

/-- The main courses that the next main course slot must leave out, and the locks that still
hold.  If the locks leave nothing new to the week although the pool has something, a new cycle
begins and the locks lapse; if the pool has too few main courses, they may repeat. -/
def mainExclusions (k : Kitchen) (draft : WeekDraft) : Planning (List String × List String) := do
  let mains := (k.pool.forCourse .main).map (·.id)
  if mains.any fun id => !draft.locked.contains id && !draft.mains.contains id then
    return (draft.locked ++ draft.mains, draft.locked)
  else if !draft.locked.isEmpty && decide (draft.mains.length < mains.length) then
    beginCycle .main mains.length
    return (draft.mains, [])
  else
    return (draft.locked, draft.locked)

/-- Add a choice to the draft. -/
def addChoice (k : Kitchen) (draft : WeekDraft) (course : Course) (slot : SlotContext)
    (choice : Choice) : Except PlanError WeekDraft :=
  (choice.toAssignment k.rules.formula course slot).map fun assignment =>
    { assignments := draft.assignments ++ [assignment]
      mains :=
        if course = .main ∧ ¬ draft.mains.contains choice.recipe.id then
          draft.mains ++ [choice.recipe.id]
        else draft.mains
      locked := if course = .main ∧ choice.cycleReset then [] else draft.locked }

/-- Fill the next slot of the week. -/
def fillSlot (k : Kitchen) (draft : WeekDraft) (place : Date × Course) : Planning WeekDraft := do
  let (day, course) := place
  Planning.record (.slotReached course day)
  let slot : SlotContext := ⟨day, day.isWeekend, (← Planning.rotation).lastComplexity⟩
  let (excluded, locked) ←
    if course = .main then k.mainExclusions draft else pure ([], draft.locked)
  let draft := { draft with locked }
  match ← k.select course slot excluded with
  | none => return draft
  | some choice => Planning.lift (k.addChoice draft course slot choice)

/-- Plan the week that begins on a Monday. -/
def planWeek (k : Kitchen) (start : Date) (locked : List String) (status : WeekStatus) :
    Planning Week := do
  let start ← Planning.lift (asWeekStart start)
  let days ← Planning.lift (datesOfWeek start)
  let draft ← (slotsOf days).foldlM k.fillSlot ⟨[], [], locked⟩
  Planning.lift (checkMainsDistinct start draft.assignments (k.pool.count .main))
  Planning.record
    (.weekPlanned start draft.assignments.length (← Planning.rotation).cycle)
  return ⟨start, days.getLastD start, draft.assignments, status⟩

end Kitchen

end MealRota
