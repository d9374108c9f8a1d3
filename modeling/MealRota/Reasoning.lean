import MealRota.Scoring

/-!
# MealRota.Reasoning

The sentence that tells a cook why a recipe stands in its slot.  Advance
preparation is mentioned first, then a complex meal at the weekend, then a
simple one on a weekday; any other recipe is simply the best fit.
-/

namespace MealRota

/-- The name of a course as words. -/
def Course.phrase (c : Course) : String :=
  String.ofList (c.name.toList.map fun x => if x = '_' then ' ' else x)

/-- What advance preparation of so many hours is called. -/
def advanceKind (hours : Nat) : String :=
  if Formula.longAdvanceHours ≤ hours then "marinade" else "advance prep"

/-- A number of minutes or hours in digits, unless they are too many. -/
def numberText (n : Nat) : Except PlanError String :=
  if isWritable n then .ok (toString n) else .error .numberTooLong

/-- The sentence for a recipe of known level that needs no advance preparation. -/
def fitReason (level : Complexity) (course : Course) (slot : SlotContext) (minutes : Nat) :
    Except PlanError String :=
  let day := slot.date.weekday.name
  if slot.weekend ∧ level = .complex then do
    return "Assigned to " ++ day ++ ": More prep time available (Complex recipe, " ++
      (← numberText minutes) ++ "min total time)"
  else if ¬ slot.weekend ∧ level = .simple then do
    return "Assigned to " ++ day ++ ": Quick weeknight meal (Simple recipe, " ++
      (← numberText minutes) ++ "min total time)"
  else .ok ("Best fit " ++ course.phrase ++ " for " ++ day ++ " based on your preferences")

/-- Why a recipe stands in a slot. -/
def reasoning (f : Formula) (r : Recipe) (course : Course) (slot : SlotContext) :
    Except PlanError String :=
  let hours := r.advanceHours.getD 0
  if hours = 0 then
    (r.complexityScore f).bind fun score => fitReason (.ofScore score) course slot r.totalMinutes
  else do
    return "Prep ahead for " ++ slot.date.weekday.name ++ ": Requires " ++
      (← numberText hours) ++ "-hour " ++ advanceKind hours

end MealRota
