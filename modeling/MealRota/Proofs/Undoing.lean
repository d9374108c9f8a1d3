import MealRota.Proofs.InStep
import MealRota.Proofs.WholePlan

/-!
# MealRota.Proofs.Undoing

Giving a whole plan back undoes its generation.  The run that then plans all weeks
anew begins in step with the run that generated them: nothing is used, nothing was
served, and the source of random numbers is the same.  Only the cycle number is as
far as the generation took it.  The two runs stay in step from week to week, so
the new weeks are the old ones.

* `Request.replanWeek_again`, `Request.replanWeeks_again` — one week, and weeks in turn;
* `Request.undone_of_generate` — a whole plan.
-/

namespace MealRota

open Planning

namespace Request

variable {q : Request} {plan : Plan} {d : Nat} {p p' r : Progress}

/-- How complex the last of some assignments is, they left in the state. -/
theorem complexityOf_of_accounted {l : List Assignment} (hids : (q.recipes.map (·.id)).Nodup)
    (h : q.kitchen.Accounted l p p') (hne : l ≠ []) :
    ∃ x, q.complexityOf l.getLast? = .ok (some x) ∧ p'.rotation.lastComplexity = some x := by
  have hlast : l.getLast? = some (l.getLast hne) := List.getLast?_eq_some_getLast hne
  obtain ⟨r, hr, hid, x, hx, hcomplexity⟩ := h.last _ hlast
  rw [hlast]
  exact ⟨x, complexityOf_of_mem_pool hids hr hid.symm hx, hcomplexity⟩

/-- How complex the last assignment of a planned week is, it left in the state. -/
theorem complexityOf_last {w : Week} {locked : List String} (hids : (q.recipes.map (·.id)).Nodup)
    (h : q.kitchen.Plans locked w p p') :
    q.complexityOf w.assignments.getLast? = .ok p'.rotation.lastComplexity := by
  obtain ⟨hne, haccounted⟩ := h.accounted
  obtain ⟨x, hx, hlast⟩ := complexityOf_of_accounted hids haccounted hne
  rw [hx, hlast]

/-- A week that was planned is planned in the same way again by a run that comes to it in step,
once it has looked up how complex the assignment before the week is. -/
theorem replanWeek_again {weeks : List Week} {w : Week} {i : Nat} (hw : weeks[i]? = some w)
    (h : q.kitchen.Plans [] w p p')
    (hpreceding : q.complexityOf (if i = 0 then none
      else (weeks[i - 1]?).bind fun w => w.assignments.getLast?) = .ok p.rotation.lastComplexity)
    (hrotation : p.rotation.InStep d
      { r.rotation with lastComplexity := p.rotation.lastComplexity })
    (hsource : p.source = r.source) :
    ∃ r', run (q.replanWeek ⟨weeks, []⟩ i) r = (.ok ⟨weeks, []⟩, r') ∧ p'.InStep d r' := by
  let looked : Progress :=
    { r with rotation := { r.rotation with lastComplexity := p.rotation.lastComplexity } }
  obtain ⟨hresult, hstep⟩ := q.kitchen.inStep_planWeek (p := p) (q := looked)
    ⟨hrotation, hsource⟩ w.start [] w.status
  rw [show run _ p = (.ok w, p') from h] at hresult hstep
  have hok : (run (q.kitchen.planWeek w.start [] w.status) looked).1 = .ok w := hresult.symm
  obtain ⟨hi, hself⟩ := List.getElem?_eq_some_iff.mp hw
  have hset : weeks.set i w = weeks := by
    rw [← hself]
    exact List.set_getElem_self hi
  refine ⟨_, ?_, hstep⟩
  unfold replanWeek
  rw [run_bind_of_ok (run_rotation r)]
  simp only [hpreceding, hw, List.filter_nil]
  rw [run_bind_of_ok (run_lift _ _), run_bind_of_ok (run_updateRotation _ _),
    run_bind_of_ok (Prod.ext hok rfl), run_pure, hset]

/-- Weeks that were planned in turn are planned in the same way again by a run that comes to the
first of them in step; `done` are the weeks before. -/
theorem replanWeeks_again (hids : (q.recipes.map (·.id)).Nodup) {rest : List Week}
    (h : q.kitchen.PlansInTurn rest p p') (hne : rest ≠ []) (done : List Week)
    (hpreceding : q.complexityOf (done.getLast?.bind fun w => w.assignments.getLast?) =
      .ok p.rotation.lastComplexity)
    (hrotation : p.rotation.InStep d
      { r.rotation with lastComplexity := p.rotation.lastComplexity })
    (hsource : p.source = r.source) :
    ∃ r', run ((List.range' done.length rest.length).foldlM q.replanWeek ⟨done ++ rest, []⟩) r =
      (.ok ⟨done ++ rest, []⟩, r') ∧ p'.InStep d r' := by
  induction h generalizing done r with
  | none p => exact absurd rfl hne
  | @next w rest p m p' h hrest ih =>
      have hw : (done ++ w :: rest)[done.length]? = some w := by simp
      have hbefore : (if done.length = 0 then none
          else ((done ++ w :: rest)[done.length - 1]?).bind fun w => w.assignments.getLast?) =
          done.getLast?.bind fun w => w.assignments.getLast? := by
        cases hdone : done.length with
        | zero => simp [List.length_eq_zero_iff.mp hdone]
        | succ n =>
            rw [List.getLast?_eq_getElem?, List.getElem?_append_left (by omega), hdone]
            rfl
      obtain ⟨m', hrun, hstep⟩ :=
        replanWeek_again hw h (by rw [hbefore, hpreceding]) hrotation hsource
      rw [List.length_cons, List.range'_succ, List.foldlM_cons, run_bind_of_ok hrun]
      cases hrest with
      | none => exact ⟨m', rfl, hstep⟩
      | next h' hrest' =>
          -- the next week follows the last assignment of this one, which is still in the state
          have hmore := ih (List.cons_ne_nil _ _) (done ++ [w])
            (by simpa using complexityOf_last hids h)
            ⟨hstep.rotation.used, hstep.rotation.servings, rfl, hstep.rotation.cycle⟩ hstep.source
          simpa using hmore

/-! ## a whole plan -/

/-- Nothing of a plan is held by other weeks than its own. -/
theorem keptMains_all (plan : Plan) : keptMains plan (plan.indicesFrom 0) = [] := by
  unfold keptMains
  rw [List.map_eq_nil_iff, List.filter_eq_nil_iff]
  rintro ⟨id, i⟩ hheld
  simpa using mem_indices_of_mem_currentMains hheld

/-- All weeks of a plan that were planned in turn from the fresh state are planned in the same way
again from a state in which nothing is used or served, however many cycles have begun before. -/
theorem replanFrom_all {t : Rotation} (hids : (q.recipes.map (·.id)).Nodup)
    (h : q.kitchen.PlansInTurn plan.weeks p p') (hweeks : plan.weeks ≠ [])
    (hfresh : p.rotation = .fresh) (hsource : p.source = r.source)
    (hused : ∀ c, r.rotation.usedIds c = TextSet.empty)
    (hservings : ∀ k, r.rotation.servings.get? k = none) (hcycle : r.rotation.cycle = 1 + d) :
    ∃ plan' r', run (q.replanFrom plan (plan.indicesFrom 0) t) r = (.ok plan', r') ∧
      plan'.weeks = plan.weeks ∧ p'.rotation.InStep d plan'.rotation := by
  have hstep : p.rotation.InStep d
      { r.rotation with lastComplexity := p.rotation.lastComplexity } := by
    rw [hfresh]
    exact ⟨fun c => (hused c).symm, fun k => (hservings k).symm, rfl, hcycle⟩
  have hpreceding : q.complexityOf none = .ok p.rotation.lastComplexity := by
    rw [hfresh]
    rfl
  obtain ⟨r', hrun, hend⟩ := replanWeeks_again hids h hweeks [] hpreceding hstep hsource
  have htargets : plan.indicesFrom 0 = List.range' 0 plan.weeks.length := List.range_eq_range'
  have hlast : ¬ (plan.indicesFrom 0).getLast? ≠ some (plan.weeks.length - 1) := by
    have hpos : plan.weeks.length ≠ 0 := by simpa using hweeks
    simp [htargets, List.getLast?_range', hpos]
  have hagain : run ((plan.indicesFrom 0).foldlM q.replanWeek ⟨plan.weeks, []⟩) r =
      (.ok ⟨plan.weeks, []⟩, r') := by
    rw [htargets]
    exact hrun
  refine ⟨⟨plan.weeks, r'.rotation⟩, r', ?_, rfl, hend.rotation⟩
  unfold replanFrom
  rw [keptMains_all, run_bind_of_ok hagain, if_neg hlast]
  rfl

/-- A plan generated from the fresh state, from recipes of which no two share an id, can be given
back as a whole: no recipe is used and no cuisine was served any more.  Planned anew from there,
with the same request, all its weeks are what they were.  The same recipes of each course count as
used as before, the cuisines were served as often, and the last assignment was as complex; but the
cycles begun twice count twice, so that cycle number `c` becomes `2 * c - 1`. -/
theorem undone_of_generate {q : Request} {given : Option Rotation} {weekCount : Option Int}
    {start : Except PlanError Date} {plan : Plan} (hids : (q.recipes.map (·.id)).Nodup)
    (hfresh : given.getD .fresh = .fresh)
    (h : (q.generate given weekCount start).result = .ok plan) :
    (∃ t, q.givenBack plan (plan.indicesFrom 0) = .ok t ∧
      (∀ c, t.usedIds c = TextSet.empty) ∧ (∀ k, t.servings.get? k = none) ∧
        t.cycle = plan.rotation.cycle) ∧
    ∃ plan', (q.regenerateFrom plan 0).result = .ok plan' ∧ plan'.weeks = plan.weeks ∧
      (∀ c, plan'.rotation.usedIds c = plan.rotation.usedIds c) ∧
      (∀ k, plan'.rotation.servings.get? k = plan.rotation.servings.get? k) ∧
      plan'.rotation.lastComplexity = plan.rotation.lastComplexity ∧
      plan'.rotation.cycle + 1 = 2 * plan.rotation.cycle := by
  obtain ⟨t, hback, hused, hservings, hcycle⟩ := givenBack_all hids hfresh h
  refine ⟨⟨t, hback, hused, hservings, hcycle⟩, ?_⟩
  obtain ⟨p, p', hp, hsource, hweeks, hturn, hrotation⟩ := weeks_of_generate h
  obtain ⟨m, hm, hsource', hsteps⟩ := run_regenerateSteps (p := q.start plan.rotation)
    (check_of_generate hids h) hback rfl
  have hpos : 1 ≤ plan.rotation.cycle := by
    rw [(generate_ok h).2.1.cycle, cycle_replay, hfresh]
    exact Nat.le_add_right 1 _
  obtain ⟨plan', r, hrun, hsame, hstep⟩ :=
    replanFrom_all (d := plan.rotation.cycle - 1) (t := t) hids hturn hweeks (hp.trans hfresh)
      (hsource.trans hsource'.symm) (by rwa [hm]) (by rwa [hm]) (by rw [hm, hcycle]; omega)
  rw [← hrotation] at hstep
  refine ⟨plan', ?_, hsame, fun c => (hstep.used c).symm, fun k => (hstep.servings k).symm,
    hstep.last.symm, by rw [hstep.cycle]; omega⟩
  have hindex : (0 : Int) ≤ 0 ∧ (0 : Int) < plan.weeks.length := by
    have hlength := List.length_pos_iff.mpr hweeks
    omega
  unfold regenerateFrom regenerate
  rw [if_pos hindex]
  exact congrArg Prod.fst (run_reporting_ok.mpr (hsteps.trans hrun))

/-- A week of three main courses, of which one comes with a side dish: its slots begin two cycles of
the main courses and one of the side dishes, and they begin them again when all is planned anew. -/
theorem undone_of_generate_four :
    let q := ofRecipes [.plain .main "a", .plain .main "b",
      { Recipe.plain .main "c" with takesSide := true }, .plain .side "s"]
    (q.recipes.map (·.id)).Nodup ∧ (none : Option Rotation).getD .fresh = .fresh ∧
      ∃ plan plan', (q.generate none (some 1) (.ok Date.first)).result = .ok plan ∧
        plan.rotation.cycle = 4 ∧ (q.regenerateFrom plan 0).result = .ok plan' ∧
          plan'.weeks = plan.weeks ∧ plan'.rotation.cycle = 7 := by
  intro q
  have hids : (q.recipes.map (·.id)).Nodup := by decide +kernel
  have hrun : ((q.generate none (some 1) (.ok Date.first)).result.toOption.any fun plan =>
      plan.rotation.cycle = 4) = true := by
    decide +kernel
  obtain ⟨plan, hplan, hcycle⟩ := (Option.any_eq_true _ _).mp hrun
  have hok := eq_ok_of_toOption hplan
  obtain ⟨-, plan', hagain, hweeks, -, -, -, hnext⟩ := undone_of_generate hids rfl hok
  have hcycle : plan.rotation.cycle = 4 := of_decide_eq_true hcycle
  exact ⟨hids, rfl, plan, plan', hok, hcycle, hagain, hweeks, by omega⟩

end Request

end MealRota
