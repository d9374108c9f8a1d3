import MealRota.Plan.Request

/-!
# MealRota.Plan.Release

Undoing assignments.  Before slots are filled anew, their recipes go back to the
rotation: they are no longer marked as used and their servings are taken back.

A main course may have been assigned in an earlier cycle and again in the current
one.  Only its latest assignment holds it, so it is given back only with that one.

* `currentMains` — the main courses of the current cycle and the weeks that hold them;
* `Request.release` — giving assignments back.
-/

namespace MealRota

/-! ## the main courses of the current cycle -/

/-- The main courses of a plan with the indices of their weeks, the latest first. -/
def mainsBackwards (weeks : List Week) : List (String × Nat) :=
  (weeks.zipIdx.flatMap fun w => w.1.mainIds.map fun id => (id, w.2)).reverse

/-- The longest beginning in which all ids are used and none repeats, `held` holding what
came before. -/
def takeHeld (used : TextSet) (held : List (String × Nat)) :
    List (String × Nat) → List (String × Nat)
  | [] => held
  | (id, week) :: l =>
      if used.contains id ∧ ¬ (held.map (·.1)).contains id then
        takeHeld used (held ++ [(id, week)]) l
      else held

/-- The main courses of the current cycle with the weeks that hold them: the longest run of
distinct used main courses at the end of the plan.  What stands before it was cleared by a
reset, even if the same recipe came back later. -/
def currentMains (weeks : List Week) (t : Rotation) : List (String × Nat) :=
  takeHeld (t.usedIds .main) [] (mainsBackwards weeks)

/-- The week that holds a main course. -/
def holder? (held : List (String × Nat)) (id : String) : Option Nat :=
  (held.find? fun p => p.1 = id).map (·.2)

/-! ## giving assignments back -/

namespace Rotation

/-- Give one serving of a recipe back.  A main course stays marked as used unless it is among
those released. -/
def giveBack (t : Rotation) (released : List String) (r : Recipe) : Rotation :=
  let t := if r.course = .main ∧ ¬ released.contains r.id then t else t.release r.course r.id
  t.discountServing r.cuisine

end Rotation

namespace Request

/-- Give the recipe of that id back. -/
def giveBackId (q : Request) (released : List String) (t : Rotation) (id : String) :
    Except PlanError Rotation :=
  match findLast? q.recipes id with
  | none => .error (.recipeNotFound id)
  | some r => .ok (t.giveBack released r)

/-- Give the recipes and side dishes of assignments back. -/
def release (q : Request) (released : List String) (assignments : List Assignment)
    (t : Rotation) : Except PlanError Rotation :=
  (assignments.flatMap (·.ids)).foldlM (q.giveBackId released) t

/-- Give assignments back to the rotation state of the run. -/
def releaseAll (q : Request) (released : List String) (assignments : List Assignment) :
    Planning Unit := do
  let t ← Planning.lift (q.release released assignments (← Planning.rotation))
  Planning.updateRotation fun _ => t

end Request

end MealRota
