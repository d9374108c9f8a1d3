import MealRota.Form.Field
import MealRota.Json.Reader
import MealRota.Json.Writer
import MealRota.Rotation.Basic

/-!
# MealRota.Rotation.Snapshot

Storing rotation states as text and loading them again.  A snapshot lists courses
and cuisines in ascending order of their names and ids in ascending code-point
order, so states with the same content have the same snapshot.

* `Rotation.toJson` — the snapshot of a state;
* `Rotation.ofJson` — the state of a snapshot.
-/

namespace MealRota

open Form

namespace Rotation

/-! ## storing -/

/-- The used recipes by course, courses in ascending order of their names. -/
def usedFields (t : Rotation) : List (String × Value) :=
  Course.all.filterMap fun c =>
    (t.used.get? c).map fun ids => (c.name, .list (ids.toList.map .text))

/-- The servings by cuisine, cuisines in ascending order of their names. -/
def servingFields (t : Rotation) : List (String × Value) :=
  Cuisine.all.filterMap fun k => (t.servings.get? k).map fun n => (k.name, .ofNat n)

/-- The state as data. -/
def toValue (t : Rotation) : Value :=
  .record
    [("cycle_number", .ofNat t.cycle),
     ("used_recipe_ids", .record t.usedFields),
     ("cuisine_usage_counts", .record t.servingFields),
     ("last_assignment_complexity", (t.lastComplexity.map Value.ofDouble).getD .null)]

/-- The snapshot of a state. -/
def toJson (t : Rotation) : String := String.ofList (Json.write .snapshot t.toValue)

/-! ## loading -/

/-- The state that a value describes, its complexity read by `complexity`. -/
def ofValueBy (complexity : Value → Checked Float) : Value → Checked Rotation
  | .record fields =>
    (fun cycle used servings lastComplexity =>
      ⟨cycle, Table.ofList used, Table.ofList servings, lastComplexity⟩)
      <$> Form.optional fields "cycle_number" 1 (wholeFrom 1)
      <*> Form.optional fields "used_recipe_ids" [] (table Course.ofName? textSet)
      <*> Form.optional fields "cuisine_usage_counts" [] (table Cuisine.ofName? (wholeFrom 0))
      <*> Form.optional fields "last_assignment_complexity" none (nullable complexity)
  | _ => .issue .notRecord

/-- The state that a value describes. -/
def ofValue : Value → Checked Rotation := ofValueBy double

/-- What a snapshot may hold: values within 200 lists and records, and numbers of `mostDigits`
digits before the point. -/
def snapshotLimits : Json.Limits := ⟨some 200, some mostDigits, some mostDigits⟩

/-- The state of a snapshot. -/
def ofJson (s : String) : Except PlanError Rotation :=
  match Json.read snapshotLimits s with
  | .error _ => .error (.invalidRotation (.malformed 1))
  | .ok v =>
    match ofValueBy boundlessDouble v with
    | .ok t => .ok t
    | .bad issues => .error (.invalidRotation (.malformed issues.length))

/-! ## comparing -/

/-- Whether two states have the same content: the same numbers, and the same sets for the same
courses, in whatever order they were entered.  A complexity that is not a number differs from
itself. -/
def sameContent (s t : Rotation) : Bool :=
  s.cycle = t.cycle
    && (Course.all.all fun c => s.used.get? c = t.used.get? c)
    && (Cuisine.all.all fun k => s.servings.get? k = t.servings.get? k)
    && match s.lastComplexity, t.lastComplexity with
      | none, none => true
      | some x, some y => x == y
      | _, _ => false

end Rotation

end MealRota
