import MealRota.Plan.Basic
import MealRota.Plan.Week
import MealRota.Rotation.Check

/-!
# MealRota.Plan.Request

What a caller brings to every planning task, and how a task is run: on a copy of
the rotation state, with a fresh source of random numbers and an empty journal.
The outcome of a task is its result together with the journal, whether it
succeeds or fails.
-/

namespace MealRota

/-- What a caller brings to a planning task. -/
structure Request where
  recipes : List Recipe
  rules : Rules
  /-- The seed of the random numbers; without one, choices are deterministic. -/
  seed : Option Int

/-- A result, or the reason why there is none, and what happened on the way. -/
structure Outcome (α : Type) where
  result : Except PlanError α
  journal : List Event

namespace Request

/-- The pool of the eligible recipes. -/
def pool (q : Request) : Pool := Pool.ofEligible q.recipes q.rules.preferences

/-- What the run chooses from and by. -/
def kitchen (q : Request) : Kitchen := ⟨q.rules, q.pool⟩

/-- The progress at the beginning of a task. -/
def start (q : Request) (rotation : Rotation) : Progress :=
  ⟨rotation, q.seed.map Twister.ofSeed, []⟩

/-- Run a task from a rotation state. -/
def perform {α : Type} (q : Request) (rotation : Rotation) (steps : Planning α) : Outcome α :=
  let (result, progress) := steps.run (q.start rotation)
  ⟨result, progress.journal⟩

/-- Refuse a rotation state that does not fit the recipes. -/
def checkRotation (q : Request) : Planning Unit := do
  Planning.lift ((← Planning.rotation).check q.recipes)

/-- Enter the making of the pool into the journal. -/
def recordPool (q : Request) : Planning Unit :=
  Planning.recordAll (Pool.ofEligibleEvents q.recipes q.rules.preferences)

/-- The complexity score of what an assignment serves. -/
def complexityOf (q : Request) : Option Assignment → Except PlanError (Option Float)
  | none => .ok none
  | some a =>
    match findLast? q.recipes a.recipeId with
    | none => .error (.recipeNotFound a.recipeId)
    | some r => (r.complexityScore q.rules.formula).map some

end Request

end MealRota
