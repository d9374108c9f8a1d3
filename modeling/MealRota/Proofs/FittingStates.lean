import MealRota.Proofs.Failures
import MealRota.Proofs.WholePlan

/-!
# MealRota.Proofs.FittingStates

Whether the rotation state of a generated plan is accepted again.  Of recipes that share
an id the pool keeps the first, and what is planned is marked under the course of that
one; the check of the state looks at the last.  The two agree unless recipes of different
courses share an id.

* `Request.check_iff_of_generate` — when the state of a generated plan fits;
* `Request.generate_failsOnly`, `Request.edit_failsOnly`, `Request.generate_refused` — what comes of
  a state that fits and of one that does not;
* `Request.fits_iff_of_generate` — both, for every plan as it was generated.
-/

namespace MealRota

open Planning

namespace Request

variable {q : Request} {given : Option Rotation} {weekCount : Option Int}
  {start : Except PlanError Date} {plan : Plan} {t : Rotation} {e : PlanError}

/-! ## states of generated plans -/

/-- The state of a generated plan fits the recipes if and only if those of the pool that it marks
have the course of the last recipe of the same id. -/
theorem check_iff_of_generate (h : (q.generate given weekCount start).result = .ok plan) :
    plan.rotation.check q.recipes = .ok () ↔
      ∀ r ∈ q.pool.recipes, plan.rotation.isUsed r.course r.id = true →
        ∃ s, findLast? q.recipes r.id = some s ∧ s.course = r.course := by
  rw [Rotation.check_ok_iff]
  constructor
  · exact fun hfits r _ hused => hfits r.course r.id hused
  · intro hpool c id hused
    -- a mark is older than the plan, or it was made for a recipe of the pool
    rcases (isUsed_of_generate h c id).mp hused with hlast | ⟨-, hbefore⟩
    · obtain ⟨-, r, hr, rfl, rfl⟩ := pool_of_takings h (mem_takings_of_mem_lastCycle hlast)
      exact hpool r hr hused
    · exact Rotation.check_ok_iff.mp (given_check_of_generate h) c id hbefore

/-- Recipes that share an id do no harm as long as they are of the same course. -/
theorem check_of_same_course
    (hsame : ∀ r ∈ q.recipes, ∀ s ∈ q.recipes, r.id = s.id → r.course = s.course)
    (h : (q.generate given weekCount start).result = .ok plan) :
    plan.rotation.check q.recipes = .ok () := by
  refine (check_iff_of_generate h).mpr fun r hr _ => ?_
  have hin : r ∈ q.recipes := (List.mem_filter.mp (mem_eligible_of_mem_pool hr)).1
  obtain ⟨s, hlisted, hs⟩ := findLast?_of_mem hin
  exact ⟨s, hs, hsame s hlisted r hin (findLast?_id hs)⟩

/-! ## what comes of a state -/

/-- From a state that fits, a generation does not fail for want of one. -/
theorem generate_failsOnly (hcheck : t.check q.recipes = .ok ())
    (hstart : ∀ e, start = .error e → e.Fitting)
    (h : (q.generate (some t) weekCount start).result = .error e) : e.Fitting := by
  have hgiven : ((some t).getD .fresh).check q.recipes = .ok () := hcheck
  exact q.generation_failsOnly hgiven hstart e h

/-- No more does an edit of a plan with such a state. -/
theorem edit_failsOnly {edit : Edit} (hcheck : plan.rotation.check q.recipes = .ok ())
    (h : (q.edit plan edit).result = .error e) : e.Fitting := by
  have hweeks : ∀ first targets, (q.regenerate plan first targets).result = .error e →
      e.Fitting := by
    intro first targets hrun
    unfold regenerate at hrun
    split at hrun
    · exact q.regeneration_failsOnly hcheck targets e hrun
    · rw [← Except.error.inj hrun]
      exact PlanError.Fitting.raised fun _ => nofun
  cases edit with
  | week index => exact hweeks _ _ h
  | weeksFrom index => exact hweeks _ _ h
  | meal date course newId =>
      have hfails := q.replacement_failsOnly plan (.ok date) (.ok course) newId e h
      rcases hfails with (hsingle | hrefused) | hdate | hcourse
      · exact hsingle.fitting
      · rw [hcheck] at hrefused
        contradiction
      · contradiction
      · contradiction

/-- A state that does not fit is refused before anything is planned. -/
theorem generate_refused (hcheck : t.check q.recipes = .error e) :
    (q.generate (some t) weekCount start).result = .error e := by
  have hrefused : run q.checkRotation (q.start t) = (.error e, q.start t) := congrArg (·, _) hcheck
  show (run (q.generateSteps weekCount start) (q.start t)).1 = _
  unfold generateSteps generateWeeks
  rw [run_bind, run_reporting, run_bind_of_error hrefused]

/-- So is planning weeks of a plan with such a state anew. -/
theorem regenerate_refused {first : Int} {targets : List Nat}
    (hfirst : 0 ≤ first ∧ first < plan.weeks.length)
    (hcheck : plan.rotation.check q.recipes = .error e) :
    (q.regenerate plan first targets).result = .error e := by
  have hrefused : run q.checkRotation (q.start plan.rotation) = (.error e, q.start plan.rotation) :=
    congrArg (·, _) hcheck
  unfold regenerate
  rw [if_pos hfirst]
  show (run (reporting _ (q.regenerateSteps plan targets)) (q.start plan.rotation)).1 = _
  unfold regenerateSteps
  rw [run_reporting, run_bind_of_error hrefused]

/-- The failure of the check is that the state does not fit. -/
theorem check_error (h : t.check q.recipes ≠ .ok ()) :
    ∃ problem, t.check q.recipes = .error (.invalidRotation problem) := by
  unfold Rotation.check at h ⊢
  split at h
  · exact absurd rfl h
  · next problem _ => exact ⟨problem, rfl⟩

/-- The state of a generated plan is accepted with the same recipes if and only if the recipes of
the pool that it marks have the course of the last recipe of the same id; so it is where all recipes
that share an id have the same course.  If it is, then generating from it and editing the plan never
fail because of the state; if it is not, then generating from it and planning weeks anew always
do. -/
theorem fits_iff_of_generate (h : (q.generate given weekCount start).result = .ok plan) :
    (plan.rotation.check q.recipes = .ok () ↔
      ∀ r ∈ q.pool.recipes, plan.rotation.isUsed r.course r.id = true →
        ∃ s, findLast? q.recipes r.id = some s ∧ s.course = r.course) ∧
    ((∀ r ∈ q.recipes, ∀ s ∈ q.recipes, r.id = s.id → r.course = s.course) →
      plan.rotation.check q.recipes = .ok ()) ∧
    ∀ q' : Request, q'.recipes = q.recipes →
      (plan.rotation.check q.recipes = .ok () →
        (∀ weekCount' start' e, (∀ e', start' = .error e' → e'.Fitting) →
          (q'.generate (some plan.rotation) weekCount' start').result = .error e → e.Fitting) ∧
        ∀ edit e, (q'.edit plan edit).result = .error e → e.Fitting) ∧
      (plan.rotation.check q.recipes ≠ .ok () → ∃ problem,
        (∀ weekCount' start', (q'.generate (some plan.rotation) weekCount' start').result =
          .error (.invalidRotation problem)) ∧
        ∀ index : Int, 0 ≤ index ∧ index < plan.weeks.length →
          (q'.regenerateWeek plan index).result = .error (.invalidRotation problem) ∧
          (q'.regenerateFrom plan index).result = .error (.invalidRotation problem)) := by
  refine ⟨check_iff_of_generate h, fun hsame => check_of_same_course hsame h,
    fun q' hrecipes => ?_⟩
  rw [← hrecipes]
  refine ⟨fun hcheck => ⟨fun _ _ e hstart => generate_failsOnly hcheck hstart,
    fun edit e => edit_failsOnly hcheck⟩, fun hcheck => ?_⟩
  obtain ⟨problem, hproblem⟩ := check_error hcheck
  exact ⟨problem, fun _ _ => generate_refused hproblem, fun index hindex =>
    ⟨regenerate_refused hindex hproblem, regenerate_refused hindex hproblem⟩⟩

/-- Two main courses of the same id: the state of their plan is accepted, and the week can be
planned anew. -/
theorem fits_iff_of_generate_twins :
    let q := ofRecipes [.plain .main "a", .plain .main "b", .plain .main "a"]
    ∃ plan, (q.generate none (some 1) (.ok autumnMonday)).result = .ok plan ∧
      plan.rotation.check q.recipes = .ok () ∧
      ∀ e, (q.regenerateWeek plan 0).result = .error e → e.Fitting := by
  intro q
  have hrun : (q.generate none (some 1) (.ok autumnMonday)).result.toOption.isSome = true := by
    decide +kernel
  obtain ⟨plan, hok⟩ := exists_of_isSome hrun
  have hsame : ∀ r ∈ q.recipes, ∀ s ∈ q.recipes, r.id = s.id → r.course = s.course := by
    decide +kernel
  obtain ⟨-, hfits, hlater⟩ := fits_iff_of_generate hok
  have hcheck := hfits hsame
  exact ⟨plan, hok, hcheck, ((hlater q rfl).1 hcheck).2 (.week 0)⟩

/-- A main course and a dessert of the same id: the main course is planned, but the state in which
it is marked is refused, by a generation that follows as well as by planning the week anew. -/
theorem refuses_own_state :
    let q := ofRecipes [.plain .main "a", .plain .dessert "a"]
    ∃ plan problem, (q.generate none (some 1) (.ok autumnMonday)).result = .ok plan ∧
      plan.rotation.check q.recipes = .error (.invalidRotation problem) ∧
      (q.generate (some plan.rotation) (some 1) (.ok (autumnDay 7))).result =
        .error (.invalidRotation problem) ∧
      (q.regenerateWeek plan 0).result = .error (.invalidRotation problem) := by
  intro q
  have hrun : ((q.generate none (some 1) (.ok autumnMonday)).result.toOption.any fun plan =>
      plan.weeks.length = 1 ∧ (plan.rotation.check q.recipes).toOption = none) = true := by
    decide +kernel
  obtain ⟨plan, hplan, hcheck⟩ := (Option.any_eq_true _ _).mp hrun
  obtain ⟨hlength, hnone⟩ := of_decide_eq_true hcheck
  have hmisfit : plan.rotation.check q.recipes ≠ .ok () := by
    intro hok
    rw [hok] at hnone
    exact Option.some_ne_none () hnone
  obtain ⟨problem, hproblem⟩ := check_error hmisfit
  exact ⟨plan, problem, eq_ok_of_toOption hplan, hproblem, generate_refused hproblem,
    regenerate_refused (by omega) hproblem⟩

end Request

end MealRota
