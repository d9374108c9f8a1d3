import MealRota.Complexity
import MealRota.Order.Insertion
import MealRota.Rotation.Basic

/-!
# MealRota.Scoring

How well a recipe suits a slot.  Hard constraints turn a recipe down; one that
passes them scores

    w · 1 / (1 + servings of its cuisine) + (1 - w) · 1 / (1 + unused share of the time)

where `w` weighs variety of cuisine against use of time.  Candidates are ordered
by descending score, equal scores by ascending id.

* `Scorer.best` finds the first of that order in a single pass;
* `Scorer.rank` puts all candidates that pass into that order.
-/

namespace MealRota

/-- What stays the same throughout a run. -/
structure Rules where
  formula : Formula
  preferences : Preferences

/-- The slot that is being filled. -/
structure SlotContext where
  date : Date
  weekend : Bool
  /-- The complexity score of what was assigned just before. -/
  preceding : Option Float

/-- What a recipe is measured against. -/
structure Scorer where
  rules : Rules
  slot : SlotContext
  rotation : Rotation
  /-- Whether recipes used in the current cycle are turned down. -/
  checksRotation : Bool := true

/-- A recipe and its score. -/
structure Scored where
  score : Float
  recipe : Recipe

namespace Scored

/-- Whether `a` comes before `b`: by a higher score, or by a smaller id at the same score. -/
def outranks (a b : Scored) : Bool :=
  b.score < a.score || (a.score == b.score && a.recipe.id < b.recipe.id)

/-- Whether `a` may stand before `b`: it does not have the lower score, nor the greater id at
the same score. -/
def mayPrecede (a b : Scored) : Bool :=
  b.score < a.score || (a.score == b.score && a.recipe.id ≤ b.recipe.id)

end Scored

namespace Scorer

/-- The minutes that a meal in this slot may take. -/
def ceiling (s : Scorer) : Nat := s.rules.preferences.ceiling s.slot.weekend

/-! ## hard constraints -/

/-- The hard constraint that a recipe of known complexity violates beyond time and rotation. -/
def complexityRejection? (s : Scorer) (score : Float) : Option Rejection :=
  let prefs := s.rules.preferences
  if prefs.skill ≠ .advanced ∧ ¬ prefs.skill.allows (.ofScore score) then some .aboveSkillLevel
  else if prefs.avoidConsecutiveComplex ∧ isComplex (some score) ∧ isComplex s.slot.preceding then
    some .consecutiveComplex
  else none

/-- The first hard constraint that a recipe violates in this slot. -/
def rejection? (s : Scorer) (r : Recipe) : Except PlanError (Option Rejection) :=
  if s.ceiling < r.totalMinutes then .ok (some .overTimeCeiling)
  else if s.checksRotation ∧ s.rotation.isUsed r.course r.id then .ok (some .usedInCycle)
  else (r.complexityScore s.rules.formula).map s.complexityRejection?

/-! ## scores -/

/-- How new a cuisine is that was served so often: `1 / (1 + servings)`. -/
def novelty (servings : Nat) : Except PlanError Float :=
  match nearestDouble servings with
  | some x => .ok (1 / (1 + x))
  | none => .error .numberOutOfRange

/-- How well the time is used: `1 / (1 + unused share)`; fully if no time is allowed. -/
def timeFit (ceiling minutes : Nat) : Float :=
  if ceiling = 0 then 1 else 1 / (1 + quotient (ceiling - minutes) ceiling)

/-- Variety and use of time, weighed against each other. -/
def weigh (weight novelty fit : Float) : Float := weight * novelty + (1 - weight) * fit

/-- The score of a recipe that passes the hard constraints; nothing for one that does not. -/
def score? (s : Scorer) (r : Recipe) : Except PlanError (Option Float) := do
  match ← s.rejection? r with
  | some _ => return none
  | none =>
    let novelty ← novelty (s.rotation.servingsOf r.cuisine)
    return some (weigh s.rules.preferences.varietyWeight novelty (timeFit s.ceiling r.totalMinutes))

/-! ## choosing and ordering -/

/-- The better of the best so far and a new candidate. -/
def better? (best : Option Scored) (new : Scored) : Option Scored :=
  match best with
  | none => some new
  | some old => if new.outranks old then some new else some old

/-- Compare one more candidate with the best so far. -/
def consider (s : Scorer) (best : Option Scored) (r : Recipe) :
    Except PlanError (Option Scored) := do
  match ← s.score? r with
  | none => return best
  | some score => return better? best ⟨score, r⟩

/-- The candidate with the highest score, of several the one with the smallest id. -/
def best? (s : Scorer) (candidates : List Recipe) : Except PlanError (Option Recipe) := do
  return (← candidates.foldlM s.consider none).map (·.recipe)

/-- The candidates that pass the hard constraints, with their scores. -/
def survivors (s : Scorer) : List Recipe → Except PlanError (List Scored)
  | [] => .ok []
  | r :: l => do
    match ← s.score? r with
    | none => survivors s l
    | some score => return ⟨score, r⟩ :: (← survivors s l)

/-- The candidates that pass, by descending score and then by ascending id. -/
def rank (s : Scorer) (candidates : List Recipe) : Except PlanError (List Scored) :=
  (s.survivors candidates).map (sortBy Scored.mayPrecede)

/-! ## reporting -/

/-- Count one more candidate that a constraint turned down. -/
def countRejection (reason : Rejection) : Rejections → Rejections
  | [] => [(reason, 1)]
  | (r, n) :: l => if r = reason then (r, n + 1) :: l else (r, n) :: countRejection reason l

/-- Count a candidate if it is turned down, used recipes included. -/
def tally (s : Scorer) (counts : Rejections) (r : Recipe) : Except PlanError Rejections := do
  match ← ({ s with checksRotation := true } : Scorer).rejection? r with
  | none => return counts
  | some reason => return countRejection reason counts

/-- How many candidates each constraint turns down, used recipes included. -/
def rejections (s : Scorer) (candidates : List Recipe) : Except PlanError Rejections :=
  candidates.foldlM s.tally []

end Scorer

end MealRota
