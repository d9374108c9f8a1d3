import MealRota.Draw.Weighted
import MealRota.Planning
import MealRota.Pool
import MealRota.Scoring

/-!
# MealRota.Selection

Filling one slot.  When every candidate of a course was used in the current
cycle, a new cycle begins before the choice.  The chosen recipe is marked as
used, and a main course that takes a side dish is paired with one.

Choices are the best candidate, or a draw weighted by score if the run has a
source of random numbers.

* `select` — fill a slot from the pool;
* `assign` — fill a slot with a given recipe.
-/

namespace MealRota

/-- What fills a slot. -/
structure Choice where
  recipe : Recipe
  /-- The side dish that comes with a main course. -/
  side : Option Recipe
  /-- Whether a new cycle of the course began for this choice. -/
  cycleReset : Bool

/-- What a run chooses from and by. -/
structure Kitchen where
  rules : Rules
  pool : Pool

/-- Begin a new cycle for a course. -/
def beginCycle (c : Course) (poolSize : Int) : Planning Unit := do
  let t ← Planning.rotation
  Planning.updateRotation fun t => t.reset c
  Planning.record (.cycleReset c t.cycle (t.cycle + 1) poolSize)

/-- Draw one of the ranked candidates, weighted by score; the first if the scores add up to nothing. -/
def drawRanked (ranked : List Scored) : Planning (Option Recipe) := do
  match ranked with
  | [] => return none
  | first :: _ =>
    let options := ranked.map fun x => (x.score, x.recipe)
    let total := totalWeight options
    if total ≤ 0 then return some first.recipe
    match ← Planning.draw? with
    | none => return some first.recipe
    | some u => return pickAt (u * total) 0 options

/-- Choose one of the candidates that pass the constraints, if any does. -/
def chooseFrom (s : Scorer) (candidates : List Recipe) : Planning (Option Recipe) := do
  if ← Planning.isRandom then
    drawRanked (← Planning.lift (s.rank candidates))
  else
    Planning.lift (s.best? candidates)

namespace Kitchen

/-- Mark a recipe as used and count its cuisine; its complexity score. -/
def take (k : Kitchen) (r : Recipe) : Planning Float := do
  Planning.updateRotation fun t => (t.mark r.course r.id).countServing r.cuisine
  Planning.record (.recipeTaken r.course r.id)
  Planning.lift (r.complexityScore k.rules.formula)

/-- Make room among the side dishes if all that suit were used: begin a new cycle if all side
dishes of the pool were, and else disregard use.  Says whether use still counts. -/
def renewSides (k : Kitchen) (candidates : List Recipe) : Planning Bool := do
  let used := (← Planning.rotation).usedIds .side
  if candidates.all fun r => used.contains r.id then
    let category := k.pool.forCourse .side
    if category.all fun r => used.contains r.id then
      beginCycle .side category.length
      return true
    else return false
  else return true

/-- Pair a main course of known complexity with a side dish. -/
def pairSide (k : Kitchen) (slot : SlotContext) (main : Recipe) (complexity : Float) :
    Planning (Option Recipe) := do
  Planning.record (.sideSought main.id slot.date)
  let candidates := k.pool.sidesFor main
  if candidates.isEmpty then return none
  let checksRotation ← k.renewSides candidates
  let rotation ← Planning.rotation
  let scorer : Scorer :=
    ⟨k.rules, { slot with preceding := some complexity }, rotation, checksRotation⟩
  match ← chooseFrom scorer candidates with
  | none =>
    Planning.record (.noSideFits main.id slot.date)
    return none
  | some side =>
    let _ ← k.take side
    return some side

/-- Fill a slot with a given recipe. -/
def assign (k : Kitchen) (slot : SlotContext) (r : Recipe) (cycleReset : Bool) :
    Planning Choice := do
  let complexity ← k.take r
  Planning.updateRotation fun t => { t with lastComplexity := some complexity }
  let side ← if r.course = .main ∧ r.takesSide then k.pairSide slot r complexity else pure none
  return ⟨r, side, cycleReset⟩

/-- The candidates for a course. -/
def candidates (k : Kitchen) (c : Course) (excluded : List String) : List Recipe :=
  (k.pool.forCourse c).filter fun r => !excluded.contains r.id

/-- Begin a new cycle for a course if all its candidates were used; says whether one began. -/
def renewCourse (c : Course) (candidates : List Recipe) : Planning Bool := do
  let used := (← Planning.rotation).usedIds c
  if candidates.all fun r => used.contains r.id then
    beginCycle c candidates.length
    return true
  else return false

/-- Fill a slot from the pool, leaving out the excluded recipes.  An optional course may stay
empty; a required one must not. -/
def select (k : Kitchen) (c : Course) (slot : SlotContext) (excluded : List String) :
    Planning (Option Choice) := do
  let candidates := k.candidates c excluded
  if candidates.isEmpty then
    if c.isRequired then Planning.fail (.insufficientRecipes 1 0) else return none
  else
    let cycleReset ← renewCourse c candidates
    let scorer : Scorer := ⟨k.rules, slot, ← Planning.rotation, true⟩
    match ← chooseFrom scorer candidates with
    | some r => return some (← k.assign slot r cycleReset)
    | none =>
      let rejections ← Planning.lift (scorer.rejections candidates)
      if c.isRequired then
        Planning.fail (.searchFailed (.noCandidate c slot.date rejections))
      else
        Planning.record (.slotLeftEmpty c slot.date rejections)
        return none

end Kitchen

end MealRota
