import MealRota.Plan.Release

/-!
# MealRota.Plan.Replace

Replacing the recipe of a single slot, by one that the caller chooses or by the
best alternative.  A main course is never replaced by one of the same week or by
one that is held elsewhere in the current cycle.
-/

namespace MealRota

/-- A filled slot of a plan. -/
structure FilledSlot where
  weekIndex : Nat
  week : Week
  /-- The place of the assignment in its week. -/
  position : Nat
  assignment : Assignment

/-- The filled slot of a day and a course. -/
def Plan.findSlot (plan : Plan) (date : Date) (course : Course) : Except PlanError FilledSlot :=
  match plan.weekIndexFor? date with
  | none => .error (.invalidDate (.notInPlan date))
  | some i =>
    match plan.weeks[i]? with
    | none => .error (.invalidDate (.notInPlan date))
    | some week =>
      match week.assignments.findIdx? (·.fills date course), week.assignmentFor? date course with
      | some position, some a => .ok ⟨i, week, position, a⟩
      | _, _ => .error (.emptySlot course date)

/-- The plan with another assignment in a slot. -/
def Plan.refill (plan : Plan) (slot : FilledSlot) (a : Assignment) (rotation : Rotation) : Plan :=
  let week := { slot.week with assignments := slot.week.assignments.set slot.position a }
  ⟨plan.weeks.set slot.weekIndex week, rotation⟩

namespace Request

/-- The recipe that the caller chose, if it may take the slot. -/
def chosenRecipe (q : Request) (t : Rotation) (course : Course) (excluded : List String)
    (id : String) : Except PlanError Recipe :=
  match q.pool.get? id with
  | none => .error (.recipeNotFound id)
  | some r =>
    if r.course ≠ course then .error (.wrongCourse r.course)
    else if excluded.contains id ∨ t.isUsed course id then .error (.alreadyUsed id)
    else .ok r

/-- The best alternative for a slot. -/
def bestAlternative (q : Request) (slot : SlotContext) (course : Course)
    (excluded : List String) : Planning Choice := do
  let failure := PlanError.searchFailed (.noAlternative course slot.date)
  if (q.kitchen.candidates course excluded).isEmpty then Planning.fail failure
  match ← q.kitchen.select course slot excluded with
  | some choice => return choice
  | none => Planning.fail failure

/-- The slot as the planner sees it: what precedes it is the assignment before it in its week. -/
def contextOf (q : Request) (slot : FilledSlot) : Except PlanError SlotContext :=
  let date := slot.assignment.date
  let previous := if slot.position = 0 then none else slot.week.assignments[slot.position - 1]?
  (q.complexityOf previous).map fun preceding => ⟨date, date.isWeekend, preceding⟩

/-- The recipes that must not take a slot, given the main courses of the current cycle. -/
def excludedFrom (slot : FilledSlot) (course : Course) (held : List (String × Nat)) :
    List String :=
  slot.assignment.recipeId ::
    if course = .main then slot.week.mainIds ++ held.map (·.1) else []

/-- The steps of a replacement up to the choice that takes the slot. -/
def replaceChoice (q : Request) (plan : Plan) (date : Date) (course : Course)
    (newId : Option String) : Planning (FilledSlot × SlotContext × Choice) := do
  let slot ← Planning.lift (plan.findSlot date course)
  let oldId := slot.assignment.recipeId
  if newId = some oldId then Planning.fail (.alreadyAssigned oldId)
  q.checkRotation
  let held := currentMains plan.weeks plan.rotation
  let released := if holder? held oldId = some slot.weekIndex then [oldId] else []
  q.releaseAll released [slot.assignment]
  let excluded := excludedFrom slot course held
  let context ← Planning.lift (q.contextOf slot)
  let before ← Planning.rotation
  q.recordPool
  let choice ← match newId with
    | some id =>
      q.kitchen.assign context (← Planning.lift (q.chosenRecipe before course excluded id)) false
    | none => q.bestAlternative context course excluded
  Planning.updateRotation fun t => { t with lastComplexity := before.lastComplexity }
  return (slot, context, choice)

/-- The steps of a replacement, the day and the course of the slot being read on the way. -/
def replaceSteps (q : Request) (plan : Plan) (date : Except PlanError Date)
    (course : Except PlanError Course) (newId : Option String) : Planning Plan := do
  let (slot, context, choice) ← Planning.reporting .replacement do
    let date ← Planning.lift date
    let course ← Planning.lift course
    q.replaceChoice plan date course newId
  let course := slot.assignment.course
  let a ← Planning.lift (choice.toAssignment q.rules.formula course context)
  Planning.record (.mealReplaced slot.assignment.date course slot.assignment.recipeId a.recipeId)
  return plan.refill slot a (← Planning.rotation)

/-- Replace the recipe of a slot by the one of id `newId`, or by the best alternative.

Day and course come as results: a caller who could not read them passes on the reason. -/
def replace (q : Request) (plan : Plan) (date : Except PlanError Date)
    (course : Except PlanError Course) (newId : Option String) : Outcome Plan :=
  q.perform plan.rotation (q.replaceSteps plan date course newId)

end Request

end MealRota
