import MealRota.Plan.Request

/-!
# MealRota.Plan.Generate

Generating a plan: consecutive weeks with one rotation state, so that no main
course repeats within a cycle across the whole run.

* `maxWeeksFor` — how many weeks a number of main courses can fill;
* `Request.generate` — the task.
-/

namespace MealRota

/-- The least number of weeks of a plan. -/
def minWeeks : Int := 1

/-- The greatest number of weeks of a plan. -/
def maxWeeks : Int := 5

/-- How many weeks so many main courses can fill without repeats, within the limits of a plan.
A count whose seventh part is beyond the range of the doubles is refused. -/
def maxWeeksFor (mains : Int) : Except PlanError Int :=
  if (quotient mains.natAbs daysPerWeek).isInf then .error .quotientOutOfRange
  else .ok (min maxWeeks (max minWeeks ((mains + 6) / daysPerWeek)))

/-- The number of weeks asked for, or else as many as the main courses can fill. -/
def weeksToPlan (mains : Nat) : Option Int → Except PlanError Int
  | none => maxWeeksFor mains
  | some n =>
    if minWeeks ≤ n ∧ n ≤ maxWeeks then .ok n
    else .error (PlanError.invalidWeekCount n minWeeks maxWeeks).raised

namespace Kitchen

/-- Plan `count` weeks, the first of which is `offset` weeks after `monday`. -/
def planWeeks (k : Kitchen) (monday : Date) : (offset count : Nat) → Planning (List Week)
  | _, 0 => return []
  | offset, count + 1 => do
    let start ← Planning.lift (dateAfter monday (daysPerWeek * offset))
    let week ← k.planWeek start [] .idle
    return week :: (← k.planWeeks monday (offset + 1) count)

end Kitchen

namespace Request

/-- The steps of a generation up to its weeks. -/
def generateWeeks (q : Request) (weekCount : Option Int) (start : Except PlanError Date) :
    Planning (List Week) := do
  q.checkRotation
  q.recordPool
  let mains := q.pool.count .main
  if mains = 0 then Planning.fail (.insufficientRecipes 1 0)
  let weeks ← Planning.lift (weeksToPlan mains weekCount)
  let monday ← Planning.lift start
  Planning.record
    (.generating monday weeks q.pool.size mains (← Planning.rotation).cycle)
  q.kitchen.planWeeks monday 0 weeks.toNat

/-- The steps of a generation. -/
def generateSteps (q : Request) (weekCount : Option Int) (start : Except PlanError Date) :
    Planning Plan := do
  let weeks ← Planning.reporting .generation (q.generateWeeks weekCount start)
  let rotation ← Planning.rotation
  Planning.record
    (.generated weeks.length (weeks.flatMap (·.assignments)).length rotation.cycle)
  return ⟨weeks, rotation⟩

/-- Generate a plan from a rotation state, a fresh one if none is given.

The first Monday comes as a result: a caller who could not read it passes on the reason, which
is reported after everything that is checked before it. -/
def generate (q : Request) (given : Option Rotation) (weekCount : Option Int)
    (start : Except PlanError Date) : Outcome Plan :=
  q.perform (given.getD .fresh) (q.generateSteps weekCount start)

end Request

end MealRota
