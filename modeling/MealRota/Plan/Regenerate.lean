import MealRota.Plan.Release

/-!
# MealRota.Plan.Regenerate

Planning weeks of a plan anew.  The recipes of the weeks are given back first;
main courses that the other weeks hold in the current cycle are locked.  The
other weeks stay as they are, and so do start and status of the weeks planned anew.
-/

namespace MealRota

/-- Weeks that are being planned anew, one after the other. -/
structure Regeneration where
  weeks : List Week
  /-- The main courses that weeks not planned anew hold in the current cycle. -/
  locked : List String

namespace Request

/-- Plan the week of an index anew. -/
def replanWeek (q : Request) (draft : Regeneration) (index : Nat) : Planning Regeneration := do
  let t ← Planning.rotation
  let locked := draft.locked.filter (t.isUsed .main ·)
  let previous := if index = 0 then none
    else (draft.weeks[index - 1]?).bind fun w => w.assignments.getLast?
  let preceding ← Planning.lift (q.complexityOf previous)
  Planning.updateRotation fun t => { t with lastComplexity := preceding }
  match draft.weeks[index]? with
  | none => return { draft with locked }
  | some old =>
    let week ← q.kitchen.planWeek old.start locked old.status
    return ⟨draft.weeks.set index week, locked⟩

/-- The steps of planning the weeks of some indices, in ascending order, anew. -/
def regenerateSteps (q : Request) (plan : Plan) (targets : List Nat) : Planning Plan := do
  q.checkRotation
  let held := currentMains plan.weeks plan.rotation
  let released := (held.filter fun p => targets.contains p.2).map (·.1)
  q.releaseAll released (targets.flatMap fun i => (plan.weeks[i]?.map (·.assignments)).getD [])
  let locked := (held.filter fun p => !targets.contains p.2).map (·.1)
  let before ← Planning.rotation
  Planning.record (.regenerating targets locked.length before.cycle)
  q.recordPool
  let draft ← targets.foldlM q.replanWeek ⟨plan.weeks, locked⟩
  if targets.getLast? ≠ some (plan.weeks.length - 1) then
    Planning.updateRotation fun t => { t with lastComplexity := before.lastComplexity }
  return ⟨draft.weeks, ← Planning.rotation⟩

/-- Plan the weeks of some indices anew, given that the plan has a week of index `first`. -/
def regenerate (q : Request) (plan : Plan) (first : Int) (targets : List Nat) : Outcome Plan :=
  if 0 ≤ first ∧ first < plan.weeks.length then
    q.perform plan.rotation (Planning.reporting .regeneration (q.regenerateSteps plan targets))
  else ⟨.error (PlanError.weekOutOfRange first plan.weeks.length).raised, []⟩

/-- Plan one week anew. -/
def regenerateWeek (q : Request) (plan : Plan) (index : Int) : Outcome Plan :=
  q.regenerate plan index [index.toNat]

/-- Plan a week and every later one anew. -/
def regenerateFrom (q : Request) (plan : Plan) (index : Int) : Outcome Plan :=
  q.regenerate plan index ((List.range plan.weeks.length).drop index.toNat)

end Request

end MealRota
