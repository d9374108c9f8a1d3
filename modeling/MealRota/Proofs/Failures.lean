import MealRota.Proofs.EditedPlans
import MealRota.Proofs.Refilling

/-!
# MealRota.Proofs.Failures

In what ways a run can fail.  That a rotation state does not fit the recipes is found
out by the check with which every task begins, and nowhere else: from a state that fits,
tasks fail for other reasons only.

* `Planning.FailsOnly` — a step fails only in ways that are allowed, closed under composition;
* `Request.generation_failsOnly`, `Request.regeneration_failsOnly`,
  `Request.replacement_failsOnly` — the tasks, from states that fit.
-/

namespace MealRota

namespace Planning

variable {α β : Type} {allowed : PlanError → Prop} {p : Progress}

/-- A step fails, if it does, in a way that is allowed. -/
def FailsOnly (allowed : PlanError → Prop) (step : Planning α) (p : Progress) : Prop :=
  ∀ e, (run step p).1 = .error e → allowed e

namespace FailsOnly

theorem of_ok {step : Planning α} {a : α} {m : Progress} (h : run step p = (.ok a, m)) :
    FailsOnly allowed step p := by
  intro e he
  rw [h] at he
  contradiction

theorem pure (a : α) : FailsOnly allowed (Pure.pure a) p := .of_ok (run_pure a p)

theorem fail {e : PlanError} (h : allowed e) : FailsOnly allowed (fail e : Planning α) p := by
  intro e' he
  rwa [← Except.error.inj he]

theorem lift {x : Except PlanError α} (h : ∀ e, x = .error e → allowed e) :
    FailsOnly allowed (lift x) p := h

/-- A sequence of two steps fails as the first does, or as the second does after the first. -/
theorem bind {step : Planning α} {f : α → Planning β} (h : FailsOnly allowed step p)
    (hf : ∀ a m, run step p = (.ok a, m) → FailsOnly allowed (f a) m) :
    FailsOnly allowed (step >>= f) p := by
  intro e he
  obtain ⟨m, hrun⟩ : ∃ m, run (step >>= f) p = (.error e, m) := ⟨_, Prod.ext he rfl⟩
  rcases run_bind_error.mp hrun with hstep | ⟨a, m', hstep, hrest⟩
  · exact h e (congrArg Prod.fst hstep)
  · exact hf a m' hstep e (congrArg Prod.fst hrest)

/-- Nothing comes after a failure. -/
theorem fail_bind {e : PlanError} (h : allowed e) (f : α → Planning β) :
    FailsOnly allowed ((Planning.fail e : Planning α) >>= f) p := by
  intro e' he
  rw [run_bind_of_error (run_fail e p)] at he
  rwa [← Except.error.inj he]

/-- A first step that succeeds does not matter. -/
theorem bind_of_ok {step : Planning α} {f : α → Planning β} {a : α} {m : Progress}
    (h : run step p = (.ok a, m)) (hf : FailsOnly allowed (f a) m) :
    FailsOnly allowed (step >>= f) p := by
  intro e he
  rw [run_bind_of_ok h] at he
  exact hf e he

/-- Neither does a first step that always succeeds. -/
theorem after {step : Planning α} {f : α → Planning β} (h : FailsOnly allowed step p)
    (hf : ∀ a m, FailsOnly allowed (f a) m) : FailsOnly allowed (step >>= f) p :=
  h.bind fun a m _ => hf a m

/-- A list of steps fails as one of them does. -/
theorem foldlM {f : β → α → Planning β} (h : ∀ b x p, FailsOnly allowed (f b x) p) (l : List α)
    (b : β) : FailsOnly allowed (l.foldlM f b) p := by
  induction l generalizing b p with
  | nil => exact .pure b
  | cons x l ih =>
      rw [List.foldlM_cons]
      exact (h b x p).after fun b' _ => ih b'

theorem imp {allowed' : PlanError → Prop} {step : Planning α} (h : FailsOnly allowed step p)
    (himp : ∀ e, allowed e → allowed' e) : FailsOnly allowed' step p :=
  fun e he => himp e (h e he)

theorem reporting {step : Planning α} (task : Task) (h : FailsOnly allowed step p) :
    FailsOnly allowed (reporting task step) p := by
  intro e he
  refine h e ?_
  rw [run_reporting] at he
  cases hrun : run step p with
  | mk result m =>
      rw [hrun] at he
      cases result with
      | ok a => contradiction
      | error e' => exact he

end FailsOnly

end Planning

open Planning

/-! ## failures other than that a state does not fit -/

/-- A failure that can come of a rotation state that fits the recipes: any but that it does not. -/
def PlanError.Fitting (e : PlanError) : Prop := ∀ problem, e ≠ .invalidRotation problem

/-- What is raised for a failure is the failure itself or that a number is too long. -/
theorem PlanError.raised_induction {p : PlanError → Prop} {e : PlanError} (h : p e)
    (hlong : p .numberTooLong) : p e.raised := by
  unfold raised
  split
  · exact h
  · exact hlong

theorem PlanError.Fitting.raised {e : PlanError} (h : e.Fitting) : e.raised.Fitting :=
  raised_induction h fun _ => nofun

/-- A failure that can come of a single slot: neither that the state does not fit the recipes, nor
that there are too few of them. -/
structure PlanError.Single (e : PlanError) : Prop where
  fitting : e.Fitting
  sufficient : ∀ minimum current, e ≠ .insufficientRecipes minimum current

theorem PlanError.Single.of_large {e : PlanError}
    (h : e = .numberOutOfRange ∨ e = .numberTooLong) : e.Single := by
  rcases h with rfl | rfl <;> exact ⟨nofun, nofun⟩

namespace Kitchen

variable (k : Kitchen)

theorem Selects.fitting {k : Kitchen} {c : Course} {slot : SlotContext} {excluded : List String}
    {p m : Progress} {e : PlanError} (h : k.Selects c slot excluded p (.error e) m) :
    e.Fitting := by
  rcases h.of_error with ⟨rfl, -, -⟩ | rfl | ⟨rejections, rfl⟩ <;> exact fun _ => nofun

/-- With candidates, filling a slot does not fail for want of recipes. -/
theorem select_failsOnly {c : Course} {excluded : List String}
    (hne : k.candidates c excluded ≠ []) (slot : SlotContext) (p : Progress) :
    FailsOnly PlanError.Single (k.select c slot excluded) p := by
  intro e he
  have hselects := k.selects_select c slot excluded p
  rw [he] at hselects
  rcases hselects.of_error with ⟨-, -, hnil⟩ | rfl | ⟨rejections, rfl⟩
  · exact absurd hnil hne
  · exact .of_large (Or.inl rfl)
  · exact ⟨nofun, nofun⟩

theorem assign_failsOnly (slot : SlotContext) (r : Recipe) (reset : Bool) (p : Progress) :
    FailsOnly PlanError.Single (k.assign slot r reset) p := by
  intro e he
  have hassigns := k.assigns_assign slot r reset p
  rw [he] at hassigns
  exact .of_large (Or.inl hassigns.eq_of_error)

theorem fillSlot_failsOnly (draft : WeekDraft) (place : Date × Course) (p : Progress) :
    FailsOnly PlanError.Fitting (k.fillSlot draft place) p := by
  obtain ⟨day, c⟩ := place
  obtain ⟨excluded, locked, m, result, q, -, hselects, hrun⟩ := k.run_fillSlot draft day c p
  intro e he
  rw [hrun] at he
  cases result with
  | error e' =>
      rw [← Except.error.inj he]
      exact hselects.fitting
  | ok chosen =>
      cases chosen with
      | none => contradiction
      | some choice => exact (PlanError.Single.of_large (addChoice_error he)).fitting

theorem planWeek_failsOnly (start : Date) (locked : List String) (status : WeekStatus)
    (p : Progress) : FailsOnly PlanError.Fitting (k.planWeek start locked status) p := by
  intro e he
  obtain ⟨m, hrun⟩ : ∃ m, run (k.planWeek start locked status) p = (.error e, m) :=
    ⟨_, Prod.ext he rfl⟩
  have hweek := k.plansWeek_planWeek start locked status p
  rw [hrun] at hweek
  generalize hres : (Except.error e : Except PlanError Week) = result at hweek
  cases hweek with
  | notMonday hm =>
      rintro problem rfl
      cases hres
  | beyond hm hd =>
      rintro problem rfl
      cases hres
  | failed days hm hd e' q hrun =>
      rw [Except.error.inj hres]
      exact FailsOnly.foldlM k.fillSlot_failsOnly _ _ e' (congrArg Prod.fst hrun)
  | clashing days hm hd draft q hrun e' hcheck =>
      rintro problem rfl
      unfold checkMainsDistinct at hcheck
      grind
  | planned days hm hd draft q hrun hcheck => contradiction

theorem planWeeks_failsOnly (monday : Date) (offset count : Nat) (p : Progress) :
    FailsOnly PlanError.Fitting (k.planWeeks monday offset count) p := by
  induction count generalizing offset p with
  | zero => exact .pure []
  | succ count ih =>
      unfold planWeeks
      refine .after (.lift fun e he => ?_) fun start m => ?_
      · rintro problem rfl
        unfold dateAfter at he
        grind
      · refine .after (k.planWeek_failsOnly start [] .idle m) fun week m => ?_
        exact .after (ih (offset + 1) m) fun rest _ => .pure (week :: rest)

end Kitchen

namespace Request

variable (q : Request) {plan : Plan} {p : Progress}

theorem complexityOf_single (a : Option Assignment) {e : PlanError}
    (h : q.complexityOf a = .error e) : e.Single := by
  unfold complexityOf at h
  split at h
  · contradiction
  · split at h
    · rw [← Except.error.inj h]
      exact ⟨nofun, nofun⟩
    · next r _ =>
        cases hx : r.complexityScore q.rules.formula with
        | ok x =>
            rw [hx] at h
            contradiction
        | error e' =>
            rw [hx] at h
            rw [← Except.error.inj h, Recipe.eq_of_complexityScore_error hx]
            exact .of_large (Or.inl rfl)

theorem release_single {released : List String} {l : List Assignment} {t : Rotation}
    {e : PlanError} (h : q.release released l t = .error e) : e.Single := by
  unfold release at h
  generalize l.flatMap (·.ids) = ids at h
  induction ids generalizing t with
  | nil => contradiction
  | cons id ids ih =>
      rw [List.foldlM_cons] at h
      unfold giveBackId at h
      cases hr : findLast? q.recipes id with
      | none =>
          rw [hr] at h
          rw [← Except.error.inj h]
          exact ⟨nofun, nofun⟩
      | some r =>
          rw [hr] at h
          exact ih h

theorem releaseAll_failsOnly (released : List String) (l : List Assignment) (p : Progress) :
    FailsOnly PlanError.Single (q.releaseAll released l) p := by
  intro e he
  rw [run_releaseAll] at he
  cases hback : q.release released l p.rotation with
  | error e' =>
      rw [hback] at he
      rw [← Except.error.inj he]
      exact q.release_single hback
  | ok t =>
      rw [hback] at he
      contradiction

/-! ## generating -/

theorem weeksToPlan_fitting {mains : Nat} {weekCount : Option Int} {e : PlanError}
    (h : weeksToPlan mains weekCount = .error e) : e.Fitting := by
  unfold weeksToPlan maxWeeksFor at h
  cases weekCount with
  | none =>
      simp only at h
      split at h
      · rw [← Except.error.inj h]
        exact fun _ => nofun
      · contradiction
  | some n =>
      simp only at h
      split at h
      · contradiction
      · rw [← Except.error.inj h]
        exact .raised fun _ => nofun

/-- Generating a plan from a state that fits fails for other reasons only, as far as the first
Monday was read without such a failure. -/
theorem generation_failsOnly {given : Option Rotation} {weekCount : Option Int}
    {start : Except PlanError Date} (hcheck : (given.getD .fresh).check q.recipes = .ok ())
    (hstart : ∀ e, start = .error e → e.Fitting) :
    FailsOnly PlanError.Fitting (q.generateSteps weekCount start)
      (q.start (given.getD .fresh)) := by
  unfold generateSteps
  refine .after (.reporting _ ?_) fun weeks m => ?_
  · unfold generateWeeks
    refine .bind_of_ok (run_checkRotation_ok hcheck) (.bind_of_ok (q.run_recordPool _) ?_)
    simp only
    split
    · exact .fail_bind (fun _ => nofun) _
    · refine .after (.lift fun e => weeksToPlan_fitting) fun n m => ?_
      refine .after (.lift hstart) fun monday m => ?_
      exact .bind_of_ok (run_rotation m) (.bind_of_ok (run_record _ _)
        (q.kitchen.planWeeks_failsOnly monday 0 n.toNat _))
  · exact .bind_of_ok (run_rotation m) (.bind_of_ok (run_record _ _) (.pure _))

/-! ## planning anew -/

theorem replanWeek_failsOnly (draft : Regeneration) (index : Nat) (p : Progress) :
    FailsOnly PlanError.Fitting (q.replanWeek draft index) p := by
  unfold replanWeek
  refine .bind_of_ok (run_rotation p) (.after (.lift fun e h => (q.complexityOf_single _ h).fitting)
    fun preceding m => .bind_of_ok (run_updateRotation _ m) ?_)
  split
  · exact .pure _
  · exact .after (q.kitchen.planWeek_failsOnly _ _ _ _) fun week _ => .pure _

/-- Planning weeks of a plan anew, the state of which fits, fails for other reasons only. -/
theorem regeneration_failsOnly (hcheck : plan.rotation.check q.recipes = .ok ())
    (targets : List Nat) :
    FailsOnly PlanError.Fitting (reporting .regeneration (q.regenerateSteps plan targets))
      (q.start plan.rotation) := by
  refine .reporting _ ?_
  unfold regenerateSteps
  refine .bind_of_ok (run_checkRotation_ok hcheck) ?_
  refine .after ((q.releaseAll_failsOnly _ _ _).imp fun _ => (·.fitting)) fun _ m => ?_
  refine .bind_of_ok (run_rotation m) (.bind_of_ok (run_record _ _)
    (.bind_of_ok (q.run_recordPool _) ?_))
  refine .after (.foldlM q.replanWeek_failsOnly _ _) fun draft m => ?_
  split
  · exact .bind_of_ok (run_updateRotation _ m) (.bind_of_ok (run_rotation _) (.pure _))
  · exact .bind_of_ok (run_rotation m) (.pure _)

/-! ## replacing -/

theorem findSlot_single {date : Date} {course : Course} {e : PlanError}
    (h : plan.findSlot date course = .error e) : e.Single := by
  unfold Plan.findSlot at h
  constructor
  · rintro problem rfl
    grind
  · rintro minimum current rfl
    grind

theorem contextOf_single {slot : FilledSlot} {e : PlanError} (h : q.contextOf slot = .error e) :
    e.Single := by
  rw [contextOf_eq] at h
  cases hpreceding : q.complexityOf slot.preceding with
  | ok preceding =>
      rw [hpreceding] at h
      contradiction
  | error e' =>
      rw [hpreceding] at h
      rw [← Except.error.inj h]
      exact q.complexityOf_single _ hpreceding

theorem chosenRecipe_single {t : Rotation} {course : Course} {excluded : List String}
    {id : String} {e : PlanError} (h : q.chosenRecipe t course excluded id = .error e) :
    e.Single := by
  unfold chosenRecipe at h
  constructor
  · rintro problem rfl
    grind
  · rintro minimum current rfl
    grind

theorem bestAlternative_failsOnly (slot : SlotContext) (course : Course)
    (excluded : List String) (p : Progress) :
    FailsOnly PlanError.Single (q.bestAlternative slot course excluded) p := by
  unfold bestAlternative
  simp only
  split
  · exact .fail_bind ⟨nofun, nofun⟩ _
  · next hne =>
      have hcandidates : q.kitchen.candidates course excluded ≠ [] := fun hnil => by
        simp [hnil] at hne
      refine .after (q.kitchen.select_failsOnly hcandidates slot p) fun chosen m => ?_
      cases chosen with
      | none => exact .fail ⟨nofun, nofun⟩
      | some choice => exact .pure choice

/-- Beyond what can come of a single slot, a replacement fails only where the state of the plan does
not fit the recipes. -/
def RefusedOr (q : Request) (plan : Plan) (e : PlanError) : Prop :=
  e.Single ∨ plan.rotation.check q.recipes = .error e

theorem replaceChoice_failsOnly (plan : Plan) (date : Date) (course : Course)
    (newId : Option String) :
    FailsOnly (q.RefusedOr plan) (q.replaceChoice plan date course newId)
      (q.start plan.rotation) := by
  unfold replaceChoice
  refine .bind (.lift fun e he => Or.inl (findSlot_single he)) fun slot m hfound => ?_
  obtain ⟨-, rfl⟩ := run_lift_ok hfound
  simp only
  split
  · exact .fail_bind (Or.inl ⟨nofun, nofun⟩) _
  · refine .after (fun e he => Or.inr he) fun _ m => ?_
    refine .after ((q.releaseAll_failsOnly _ _ _).imp fun _ => Or.inl) fun _ m => ?_
    refine .after (.lift fun e he => Or.inl (q.contextOf_single he)) fun context m => ?_
    refine .bind_of_ok (run_rotation m) (.bind_of_ok (q.run_recordPool _) ?_)
    cases newId with
    | some id =>
        refine .after (.lift fun e he => Or.inl (q.chosenRecipe_single he)) fun r m => ?_
        refine .after ((q.kitchen.assign_failsOnly context r false m).imp fun _ => Or.inl)
          fun choice m => ?_
        exact .bind_of_ok (run_updateRotation _ m) (.pure _)
    | none =>
        refine .after ((q.bestAlternative_failsOnly context course _ _).imp fun _ => Or.inl)
          fun choice m => ?_
        exact .bind_of_ok (run_updateRotation _ m) (.pure _)

theorem toAssignment_single {f : Formula} {choice : Choice} {course : Course}
    {slot : SlotContext} {e : PlanError} (h : choice.toAssignment f course slot = .error e) :
    e.Single := by
  unfold Choice.toAssignment at h
  cases hreason : reasoning f choice.recipe course slot with
  | error e' =>
      rw [hreason] at h
      rw [← Except.error.inj h]
      exact .of_large (reasoning_error hreason)
  | ok reason =>
      rw [hreason] at h
      contradiction

/-- Replacing the recipe of a slot fails for what can come of a single slot, for a state that does
not fit the recipes, or where the day or the course could not be read. -/
theorem replacement_failsOnly (plan : Plan) (date : Except PlanError Date)
    (course : Except PlanError Course) (newId : Option String) :
    FailsOnly (fun e => q.RefusedOr plan e ∨ date = .error e ∨ course = .error e)
      (q.replaceSteps plan date course newId) (q.start plan.rotation) := by
  unfold replaceSteps
  refine .after (.reporting _ ?_) fun made m => ?_
  · refine .bind (.lift fun e he => Or.inr (Or.inl he)) fun date' m hdate => ?_
    obtain ⟨-, rfl⟩ := run_lift_ok hdate
    refine .bind (.lift fun e he => Or.inr (Or.inr he)) fun course' m hcourse => ?_
    obtain ⟨-, rfl⟩ := run_lift_ok hcourse
    exact (q.replaceChoice_failsOnly plan date' course' newId).imp fun _ => Or.inl
  · obtain ⟨slot, context, choice⟩ := made
    refine .after (.lift fun e he => Or.inl (Or.inl (toAssignment_single he))) fun a m => ?_
    exact .bind_of_ok (run_record _ _) (.bind_of_ok (run_rotation _) (.pure _))

end Request

end MealRota
