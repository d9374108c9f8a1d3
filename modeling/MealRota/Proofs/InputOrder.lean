import MealRota.Plan.Generate
import MealRota.Plan.Replace
import MealRota.Proofs.Cycles
import MealRota.Proofs.DistinctIds

/-!
# MealRota.Proofs.InputOrder

The order in which a caller lists the recipes.  Planning sees the list only
through the pool and through look-ups by id, and neither depends on the order as
long as no two recipes share an id.  So every task has the same outcome for every
order: the same plan or the same failure, and the same journal.
-/

namespace MealRota

namespace Request

/-- The request with other recipes. -/
def withRecipes (q : Request) (recipes : List Recipe) : Request := { q with recipes }

section

variable {q : Request} {recipes : List Recipe} (hperm : q.recipes.Perm recipes)
  (hids : (q.recipes.map (·.id)).Nodup)

include hperm hids

/-! ## what planning sees of the recipes -/

theorem pool_withRecipes : (q.withRecipes recipes).pool = q.pool :=
  Pool.ofEligible_perm hperm hids

theorem kitchen_withRecipes : (q.withRecipes recipes).kitchen = q.kitchen :=
  congrArg (Kitchen.mk q.rules) (pool_withRecipes hperm hids)

theorem complexityOf_withRecipes : (q.withRecipes recipes).complexityOf = q.complexityOf := by
  funext a
  cases a with
  | none => rfl
  | some a => simp only [complexityOf, withRecipes, findLast?_perm hperm hids]

theorem recordPool_withRecipes : (q.withRecipes recipes).recordPool = q.recordPool :=
  congrArg Planning.recordAll (Pool.ofEligibleEvents_perm hperm hids)

/-- A rotation state fits the recipes in any order, or fails to in the same way. -/
theorem checkRotation_withRecipes : (q.withRecipes recipes).checkRotation = q.checkRotation := by
  have hproblem : Rotation.problemOf? recipes = Rotation.problemOf? q.recipes := by
    funext c id
    simp only [Rotation.problemOf?, findLast?_perm hperm hids]
  have hcheck : Rotation.check recipes = Rotation.check q.recipes := by
    funext t
    simp only [Rotation.check, Rotation.problem?, hproblem]
  show (do Planning.lift ((← Planning.rotation).check recipes)) = _
  rw [hcheck]
  rfl

theorem releaseAll_withRecipes : (q.withRecipes recipes).releaseAll = q.releaseAll := by
  have hback : (q.withRecipes recipes).giveBackId = q.giveBackId := by
    funext released t id
    simp only [giveBackId, withRecipes, findLast?_perm hperm hids]
  funext released assignments
  simp only [releaseAll, release, hback]

/-! ## the tasks -/

theorem generateSteps_withRecipes :
    (q.withRecipes recipes).generateSteps = q.generateSteps := by
  funext weekCount start
  simp only [generateSteps, generateWeeks, checkRotation_withRecipes hperm hids,
    recordPool_withRecipes hperm hids, pool_withRecipes hperm hids,
    kitchen_withRecipes hperm hids]

theorem replanWeek_withRecipes : (q.withRecipes recipes).replanWeek = q.replanWeek := by
  funext draft index
  simp only [replanWeek, complexityOf_withRecipes hperm hids, kitchen_withRecipes hperm hids]

theorem regenerateSteps_withRecipes :
    (q.withRecipes recipes).regenerateSteps = q.regenerateSteps := by
  funext plan targets
  simp only [regenerateSteps, checkRotation_withRecipes hperm hids,
    releaseAll_withRecipes hperm hids, recordPool_withRecipes hperm hids,
    replanWeek_withRecipes hperm hids]

theorem replaceSteps_withRecipes : (q.withRecipes recipes).replaceSteps = q.replaceSteps := by
  have hcontext : (q.withRecipes recipes).contextOf = q.contextOf := by
    funext slot
    simp only [contextOf, complexityOf_withRecipes hperm hids]
  have hchosen : (q.withRecipes recipes).chosenRecipe = q.chosenRecipe := by
    funext t course excluded id
    simp only [chosenRecipe, pool_withRecipes hperm hids]
  have hbest : (q.withRecipes recipes).bestAlternative = q.bestAlternative := by
    funext slot course excluded
    simp only [bestAlternative, kitchen_withRecipes hperm hids]
  have hrules : (q.withRecipes recipes).rules = q.rules := rfl
  funext plan date course newId
  simp only [replaceSteps, replaceChoice, checkRotation_withRecipes hperm hids,
    releaseAll_withRecipes hperm hids, recordPool_withRecipes hperm hids,
    kitchen_withRecipes hperm hids, hcontext, hchosen, hbest, hrules]

end

/-- Whatever order the recipes are listed in, as long as no two share an id, every task has the
same outcome: the same plan and rotation state or the same failure, with the same journal. -/
theorem outcome_of_perm {q : Request} {recipes : List Recipe} (hperm : q.recipes.Perm recipes)
    (hids : (q.recipes.map (·.id)).Nodup) :
    (∀ given weekCount start,
      (q.withRecipes recipes).generate given weekCount start =
        q.generate given weekCount start) ∧
    (∀ plan index, (q.withRecipes recipes).regenerateWeek plan index =
      q.regenerateWeek plan index) ∧
    (∀ plan index, (q.withRecipes recipes).regenerateFrom plan index =
      q.regenerateFrom plan index) ∧
    (∀ plan date course newId, (q.withRecipes recipes).replace plan date course newId =
      q.replace plan date course newId) := by
  have hperform : ∀ {α : Type} t (steps : Planning α),
      (q.withRecipes recipes).perform t steps = q.perform t steps := fun _ _ => rfl
  refine ⟨fun given weekCount start => ?_, fun plan index => ?_, fun plan index => ?_,
    fun plan date course newId => ?_⟩
  · simp only [generate, generateSteps_withRecipes hperm hids, hperform]
  · simp only [regenerateWeek, regenerate, regenerateSteps_withRecipes hperm hids, hperform]
  · simp only [regenerateFrom, regenerate, regenerateSteps_withRecipes hperm hids, hperform]
  · simp only [replace, replaceSteps_withRecipes hperm hids, hperform]

/-- Three main courses, of which one comes with a side dish, fill a week in the same way whether
they are listed from first to last or from last to first. -/
theorem outcome_of_perm_four :
    let q := ofRecipes [.plain .main "a", .plain .main "b",
      { Recipe.plain .main "c" with takesSide := true }, .plain .side "s"]
    q.recipes.Perm q.recipes.reverse ∧ (q.recipes.map (·.id)).Nodup ∧
      (q.withRecipes q.recipes.reverse).recipes ≠ q.recipes ∧
      ∃ plan, (q.generate none (some 1) (.ok Date.first)).result = .ok plan ∧
        (q.withRecipes q.recipes.reverse).generate none (some 1) (.ok Date.first) =
          q.generate none (some 1) (.ok Date.first) := by
  intro q
  have hperm : q.recipes.Perm q.recipes.reverse := (List.reverse_perm q.recipes).symm
  have hids : (q.recipes.map (·.id)).Nodup := by decide +kernel
  have hother : (q.withRecipes q.recipes.reverse).recipes ≠ q.recipes := by decide +kernel
  have hok : (q.generate none (some 1) (.ok Date.first)).result.toOption.isSome = true := by
    decide +kernel
  obtain ⟨plan, hplan⟩ := exists_of_isSome hok
  exact ⟨hperm, hids, hother, plan, hplan, (outcome_of_perm hperm hids).1 _ _ _⟩

end Request

end MealRota
