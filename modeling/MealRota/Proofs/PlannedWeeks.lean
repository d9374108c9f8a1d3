import MealRota.Proofs.GivingBack

/-!
# MealRota.Proofs.PlannedWeeks

Where the weeks of a plan come from.  Every task that makes weeks comes down to
runs of the week planner, one after the other, each from the progress in which the
one before it ended.

* `Kitchen.Plans` — a run of the week planner, and what it keeps of what it is given;
* `Kitchen.PlansInTurn`, `Request.weeks_of_generate` — the weeks of a generated plan;
* `Request.Replanned`, `Request.replanned_of_regeneration` — the weeks of a plan of which some
  were planned anew.
-/

namespace MealRota

open Planning

/-! ## one week -/

/-- The week ends on the last of the seven days that begin with its first. -/
def Week.Dated (w : Week) : Prop :=
  ∃ days, w.start.weekDates? = some days ∧ w.finish = days.getLastD w.start

/-- The first day of a week determines its last. -/
theorem Week.Dated.finish_eq {w w' : Week} (h : w.Dated) (h' : w'.Dated)
    (hstart : w'.start = w.start) : w'.finish = w.finish := by
  obtain ⟨days, hdays, hfinish⟩ := h
  obtain ⟨days', hdays', hfinish'⟩ := h'
  rw [hstart, hdays] at hdays'
  rw [hfinish', hfinish, hstart, Option.some.inj hdays']

namespace Kitchen

variable {k : Kitchen} {locked : List String} {p q : Progress} {w : Week}

/-- The week planner makes a week of its first day and its status. -/
def Plans (k : Kitchen) (locked : List String) (w : Week) (p q : Progress) : Prop :=
  run (k.planWeek w.start locked w.status) p = (.ok w, q)

/-- A planned week has the first day and the status that were asked for. -/
theorem plans_of_planWeek {start : Date} {status : WeekStatus}
    (h : run (k.planWeek start locked status) p = (.ok w, q)) :
    w.start = start ∧ w.status = status ∧ k.Plans locked w p q := by
  have hweek := k.plansWeek_planWeek start locked status p
  rw [h] at hweek
  cases hweek with
  | planned days hm hd draft q hrun hcheck => exact ⟨rfl, rfl, h⟩

/-- A planned week ends on the last of its days. -/
theorem Plans.dated (h : k.Plans locked w p q) : w.Dated := by
  have hweek := k.plansWeek_planWeek w.start locked w.status p
  rw [show run (k.planWeek w.start locked w.status) p = (.ok w, q) from h] at hweek
  generalize hres : (Except.ok w : Except PlanError Week) = result at hweek
  cases hweek with
  | planned days hm hd draft m hrun hcheck =>
      exact ⟨days, hd, congrArg Week.finish (Except.ok.inj hres)⟩
  | _ => contradiction

/-- The assignments of a planned week come of filling its slots. -/
theorem Plans.slots (h : k.Plans locked w p q) :
    ∃ days draft m, run ((slotsOf days).foldlM k.fillSlot ⟨[], [], locked⟩) p = (.ok draft, m) ∧
      days.length = daysPerWeek ∧ w.assignments = draft.assignments ∧
        q.rotation = m.rotation ∧ q.source = m.source := by
  have hweek := k.plansWeek_planWeek w.start locked w.status p
  rw [show run (k.planWeek w.start locked w.status) p = (.ok w, q) from h] at hweek
  generalize hres : (Except.ok w : Except PlanError Week) = result at hweek
  cases hweek with
  | planned days hm hd draft m hrun hcheck =>
      refine ⟨days, draft, m, hrun, length_of_weekDates? hd, ?_, rfl, rfl⟩
      rw [Except.ok.inj hres]
  | _ => contradiction

/-! ## weeks in turn -/

/-- Weeks are planned one after the other, with nothing locked. -/
inductive PlansInTurn (k : Kitchen) : List Week → Progress → Progress → Prop
  | none (p : Progress) : PlansInTurn k [] p p
  | next {w : Week} {weeks : List Week} {p m q : Progress} (h : k.Plans [] w p m)
      (hrest : PlansInTurn k weeks m q) : PlansInTurn k (w :: weeks) p q

theorem plansInTurn_of_planWeeks {monday : Date} {offset count : Nat} {weeks : List Week}
    (h : run (k.planWeeks monday offset count) p = (.ok weeks, q)) :
    weeks.length = count ∧ k.PlansInTurn weeks p q := by
  induction count generalizing offset weeks p with
  | zero =>
      rw [planWeeks, run_pure] at h
      obtain ⟨hweeks, rfl⟩ := Prod.mk.inj h
      rw [← Except.ok.inj hweeks]
      exact ⟨rfl, .none p⟩
  | succ count ih =>
      unfold planWeeks at h
      obtain ⟨start, m, hstart, h⟩ := run_bind_ok.mp h
      obtain ⟨-, rfl⟩ := run_lift_ok hstart
      obtain ⟨week, m, hweek, h⟩ := run_bind_ok.mp h
      obtain ⟨rest, m', hrest, h⟩ := run_bind_ok.mp h
      rw [run_pure] at h
      obtain ⟨hweeks, rfl⟩ := Prod.mk.inj h
      obtain ⟨hlength, hturn⟩ := ih hrest
      rw [← Except.ok.inj hweeks]
      exact ⟨congrArg Nat.succ hlength, .next (plans_of_planWeek hweek).2.2 hturn⟩

/-- Each of the weeks comes of a run of the planner. -/
theorem PlansInTurn.of_mem {weeks : List Week} (h : k.PlansInTurn weeks p q) (hw : w ∈ weeks) :
    ∃ m m', k.Plans [] w m m' := by
  induction h with
  | none p => exact absurd hw List.not_mem_nil
  | next h hrest ih =>
      rcases List.mem_cons.mp hw with rfl | hw
      · exact ⟨_, _, h⟩
      · exact ih hw

end Kitchen

namespace Request

variable {q : Request} {plan plan' : Plan} {targets : List Nat} {t : Rotation} {p m : Progress}

/-! ## generating -/

/-- A plan has at least one week. -/
theorem pos_of_weeksToPlan {mains : Nat} {weekCount : Option Int} {n : Int}
    (h : weeksToPlan mains weekCount = .ok n) : 1 ≤ n := by
  unfold weeksToPlan maxWeeksFor at h
  have hmin : minWeeks = 1 := rfl
  have hmax : maxWeeks = 5 := rfl
  grind

/-- A generated plan has at least one week; they are planned one after the other from the Monday
and the state that were given, and the journal closes with the report of the plan. -/
theorem generating_of_generate {given : Option Rotation} {weekCount : Option Int}
    {start : Except PlanError Date} (h : (q.generate given weekCount start).result = .ok plan) :
    ∃ monday n m m', start = .ok monday ∧ 1 ≤ n ∧ m.rotation = given.getD .fresh ∧
      m.source = q.seed.map Twister.ofSeed ∧
      run (q.kitchen.planWeeks monday 0 n) m = (.ok plan.weeks, m') ∧
      plan.rotation = m'.rotation ∧
      (q.generate given weekCount start).journal = m'.journal ++
        [.generated plan.weeks.length plan.assignments.length plan.rotation.cycle] := by
  have hrun : q.generation given weekCount start =
      (.ok plan, (q.generation given weekCount start).2) := Prod.ext h rfl
  obtain ⟨weeks, m', hweeks, hsteps⟩ := run_bind_ok.mp hrun
  obtain ⟨hplan, hreport⟩ := Prod.mk.inj hsteps
  unfold generateWeeks at hweeks
  obtain ⟨_, m, hcheck, hweeks⟩ := run_bind_ok.mp (run_reporting_ok.mp hweeks)
  have hm : q.start (given.getD .fresh) = m := (Prod.mk.inj hcheck).2
  subst hm
  obtain ⟨_, m, hpool, hweeks⟩ := run_bind_ok.mp hweeks
  obtain ⟨-, rfl⟩ := Prod.mk.inj hpool
  simp only at hweeks
  split at hweeks
  · obtain ⟨_, m, hfail, -⟩ := run_bind_ok.mp hweeks
    simp at hfail
  · obtain ⟨n, m, hn, hweeks⟩ := run_bind_ok.mp hweeks
    obtain ⟨hcount, rfl⟩ := run_lift_ok hn
    obtain ⟨monday, m, hmonday, hweeks⟩ := run_bind_ok.mp hweeks
    obtain ⟨hstart, rfl⟩ := run_lift_ok hmonday
    obtain ⟨t, m, ht, hweeks⟩ := run_bind_ok.mp hweeks
    obtain ⟨-, rfl⟩ := Prod.mk.inj ht
    obtain ⟨_, m, hrecord, hweeks⟩ := run_bind_ok.mp hweeks
    obtain ⟨-, rfl⟩ := Prod.mk.inj hrecord
    have hpos := pos_of_weeksToPlan hcount
    rw [← Except.ok.inj hplan]
    exact ⟨monday, n.toNat, _, m', hstart, by omega, rfl, rfl, hweeks, rfl,
      (congrArg Progress.journal hreport).symm⟩

/-- Of these facts, those that leave the journal out. -/
theorem planWeeks_of_generate {given : Option Rotation} {weekCount : Option Int}
    {start : Except PlanError Date} (h : (q.generate given weekCount start).result = .ok plan) :
    ∃ monday n m m', start = .ok monday ∧ 1 ≤ n ∧ m.rotation = given.getD .fresh ∧
      m.source = q.seed.map Twister.ofSeed ∧
      run (q.kitchen.planWeeks monday 0 n) m = (.ok plan.weeks, m') ∧
      plan.rotation = m'.rotation := by
  obtain ⟨monday, n, m, m', hstart, hpos, hm, hsource, hrun, hrotation, -⟩ :=
    generating_of_generate h
  exact ⟨monday, n, m, m', hstart, hpos, hm, hsource, hrun, hrotation⟩

/-- A generated plan has at least one week; all of them are planned in turn, from the state that
was given. -/
theorem weeks_of_generate {given : Option Rotation} {weekCount : Option Int}
    {start : Except PlanError Date} (h : (q.generate given weekCount start).result = .ok plan) :
    ∃ m m', m.rotation = given.getD .fresh ∧ m.source = q.seed.map Twister.ofSeed ∧
      plan.weeks ≠ [] ∧ q.kitchen.PlansInTurn plan.weeks m m' ∧ plan.rotation = m'.rotation := by
  obtain ⟨monday, n, m, m', -, hpos, hm, hsource, hrun, hrotation⟩ := planWeeks_of_generate h
  obtain ⟨hlength, hturn⟩ := Kitchen.plansInTurn_of_planWeeks hrun
  refine ⟨m, m', hm, hsource, ?_, hturn, hrotation⟩
  exact List.length_pos_iff.mp (by omega)

/-- A run whose state fits the recipes passes the check. -/
theorem run_checkRotation_ok (h : p.rotation.check q.recipes = .ok ()) :
    run q.checkRotation p = (.ok (), p) := congrArg (·, p) h

theorem run_recordPool (q : Request) (p : Progress) :
    run q.recordPool p = (.ok (), { p with
      journal := p.journal ++ Pool.ofEligibleEvents q.recipes q.rules.preferences }) := rfl

/-! ## planning anew -/

/-- What becomes of the weeks of a plan when those of some indices are planned anew: the planner
makes them of the same first day and status, and the others stay as they are. -/
structure Replanned (k : Kitchen) (weeks weeks' : List Week) (targets : List Nat) : Prop where
  length : weeks'.length = weeks.length
  untouched : ∀ i, i ∉ targets → weeks'[i]? = weeks[i]?
  kept : ∀ (i : Nat) old, weeks[i]? = some old →
    ∃ new, weeks'[i]? = some new ∧ new.start = old.start ∧ new.status = old.status
  planned : ∀ i ∈ targets, ∀ w, weeks'[i]? = some w → ∃ locked m m', k.Plans locked w m m'

/-- The main courses that weeks of a plan still hold when others are planned anew. -/
def keptMains (plan : Plan) (targets : List Nat) : List String :=
  ((currentMains plan.weeks plan.rotation).filter fun p => !targets.contains p.2).map (·.1)

/-- The steps of planning weeks anew once they are given back, which led to the state `before`. -/
def replanFrom (q : Request) (plan : Plan) (targets : List Nat) (before : Rotation) :
    Planning Plan := do
  let draft ← targets.foldlM q.replanWeek ⟨plan.weeks, keptMains plan targets⟩
  if targets.getLast? ≠ some (plan.weeks.length - 1) then
    Planning.updateRotation fun t => { t with lastComplexity := before.lastComplexity }
  return ⟨draft.weeks, ← Planning.rotation⟩

/-- Where the state of a plan fits the recipes and weeks can be given back, they are planned anew
from the state without them, with the same source of random numbers. -/
theorem run_regenerateSteps (hcheck : plan.rotation.check q.recipes = .ok ())
    (hback : q.givenBack plan targets = .ok t) (hp : p.rotation = plan.rotation) :
    ∃ m, m.rotation = t ∧ m.source = p.source ∧
      run (q.regenerateSteps plan targets) p = run (q.replanFrom plan targets t) m := by
  unfold regenerateSteps
  have hfits : run q.checkRotation p = (.ok (), p) := run_checkRotation_ok (by rw [hp, hcheck])
  have hrelease := q.run_releaseAll (releasedMains plan targets) (assignmentsOf plan targets) p
  rw [hp, show q.release _ _ plan.rotation = .ok t from hback] at hrelease
  unfold releasedMains assignmentsOf at hrelease
  rw [run_bind_of_ok hfits]
  simp only
  rw [run_bind_of_ok hrelease, run_bind_of_ok (run_rotation _), run_bind_of_ok (run_record _ _),
    run_bind_of_ok (q.run_recordPool _)]
  refine ⟨_, ?_, ?_, rfl⟩ <;> rfl

namespace Replanned

variable {k : Kitchen} {weeks weeks' : List Week} {i : Nat} {old w : Week}

theorem nil (k : Kitchen) (weeks : List Week) : Replanned k weeks weeks [] :=
  ⟨rfl, fun _ _ => rfl, fun _ old h => ⟨old, h, rfl, rfl⟩, fun _ hi => absurd hi List.not_mem_nil⟩

/-- There is nothing to be planned anew beyond the last week. -/
theorem missing (h : Replanned k weeks weeks' targets) (hi : weeks'[i]? = none) :
    Replanned k weeks weeks' (targets ++ [i]) where
  length := h.length
  untouched := fun j hj => h.untouched j fun hin => hj (List.mem_append_left _ hin)
  kept := h.kept
  planned := fun j hj w hw => by
    rcases List.mem_append.mp hj with hj | hj
    · exact h.planned j hj w hw
    · rw [List.mem_singleton.mp hj, hi] at hw
      contradiction

/-- One more week is planned anew. -/
theorem set (h : Replanned k weeks weeks' targets) (hold : weeks'[i]? = some old)
    (hstart : w.start = old.start) (hstatus : w.status = old.status)
    (hplans : ∃ locked m m', k.Plans locked w m m') :
    Replanned k weeks (weeks'.set i w) (targets ++ [i]) := by
  have hin : i < weeks'.length := (List.getElem?_eq_some_iff.mp hold).1
  refine ⟨by rw [List.length_set, h.length], fun j hj => ?_, fun j first hfirst => ?_,
    fun j hj new hnew => ?_⟩
  · rw [List.mem_append, List.mem_singleton, not_or] at hj
    rw [List.getElem?_set_ne (Ne.symm hj.2), h.untouched j hj.1]
  · obtain ⟨second, hsecond, hstart', hstatus'⟩ := h.kept j first hfirst
    by_cases hij : i = j
    · subst hij
      rw [hold] at hsecond
      rw [← Option.some.inj hsecond] at hstart' hstatus'
      exact ⟨w, List.getElem?_set_self hin, hstart.trans hstart', hstatus.trans hstatus'⟩
    · exact ⟨second, by rw [List.getElem?_set_ne hij, hsecond], hstart', hstatus'⟩
  · by_cases hij : i = j
    · subst hij
      rw [List.getElem?_set_self hin] at hnew
      rw [← Option.some.inj hnew]
      exact hplans
    · rw [List.getElem?_set_ne hij] at hnew
      refine h.planned j ?_ new hnew
      rcases List.mem_append.mp hj with hj | hj
      · exact hj
      · exact absurd (List.mem_singleton.mp hj).symm hij

/-- What holds of the weeks before and of those that the planner makes, holds of all. -/
theorem forall_mem {P : Week → Prop} (h : Replanned k weeks weeks' targets)
    (hplanned : ∀ w locked m m', k.Plans locked w m m' → P w) (hold : ∀ w ∈ weeks, P w) :
    ∀ w ∈ weeks', P w := by
  intro w hw
  obtain ⟨i, hi⟩ := List.mem_iff_getElem?.mp hw
  by_cases htarget : i ∈ targets
  · obtain ⟨locked, m, m', hplans⟩ := h.planned i htarget w hi
    exact hplanned w locked m m' hplans
  · rw [h.untouched i htarget] at hi
    exact hold w (List.mem_of_getElem? hi)

/-- Weeks that end on the last of their days keep both their ends. -/
theorem finish_eq (h : Replanned k weeks weeks' targets) (hi : i ∈ targets)
    (hold : weeks[i]? = some old) (hdated : old.Dated) :
    ∃ new, weeks'[i]? = some new ∧ new.start = old.start ∧ new.finish = old.finish ∧
      new.status = old.status := by
  obtain ⟨new, hnew, hstart, hstatus⟩ := h.kept i old hold
  obtain ⟨locked, m, m', hplans⟩ := h.planned i hi new hnew
  exact ⟨new, hnew, hstart, hdated.finish_eq hplans.dated hstart, hstatus⟩

end Replanned

/-- The assignment before the week of an index: the last one of the week before. -/
def lastBefore (weeks : List Week) (index : Nat) : Option Assignment :=
  if index = 0 then none else (weeks[index - 1]?).bind fun w => w.assignments.getLast?

/-- Planning the week of an index anew looks up how complex the assignment before it is, and
replaces the week by a run of the planner from there, if there is one. -/
theorem replanWeek_steps {draft draft' : Regeneration} {i : Nat} {m' : Progress}
    (h : run (q.replanWeek draft i) m = (.ok draft', m')) :
    ∃ x looked, q.complexityOf (lastBefore draft.weeks i) = .ok x ∧
      looked = { m with rotation := { m.rotation with lastComplexity := x } } ∧
      ((draft.weeks[i]? = none ∧ draft'.weeks = draft.weeks ∧ m' = looked) ∨
        ∃ old w, draft.weeks[i]? = some old ∧ draft'.weeks = draft.weeks.set i w ∧
          w.start = old.start ∧ w.status = old.status ∧
            q.kitchen.Plans draft'.locked w looked m') := by
  unfold replanWeek at h
  obtain ⟨t, m₁, ht, h⟩ := run_bind_ok.mp h
  obtain ⟨-, rfl⟩ := Prod.mk.inj ht
  obtain ⟨x, m₂, hx, h⟩ := run_bind_ok.mp h
  obtain ⟨hpreceding, rfl⟩ := run_lift_ok hx
  obtain ⟨_, looked, hlooked, h⟩ := run_bind_ok.mp h
  refine ⟨x, looked, hpreceding, (Prod.mk.inj hlooked).2.symm, ?_⟩
  split at h
  · next hnone =>
      obtain ⟨hdraft, rfl⟩ := Prod.mk.inj h
      rw [← Except.ok.inj hdraft]
      exact Or.inl ⟨hnone, rfl, rfl⟩
  · next old hold =>
      obtain ⟨w, p', hweek, h⟩ := run_bind_ok.mp h
      obtain ⟨hdraft, rfl⟩ := Prod.mk.inj h
      obtain ⟨hstart, hstatus, hplans⟩ := Kitchen.plans_of_planWeek hweek
      rw [← Except.ok.inj hdraft]
      exact Or.inr ⟨old, w, hold, rfl, hstart, hstatus, hplans⟩

/-- Planning weeks of a plan anew, one after the other. -/
theorem replanned_of_foldlM {draft draft' : Regeneration} {m' : Progress}
    (h : run (targets.foldlM q.replanWeek draft) m = (.ok draft', m')) :
    Replanned q.kitchen draft.weeks draft'.weeks targets := by
  refine run_foldlM_ok (fun done d _ => Replanned q.kitchen draft.weeks d.weeks done)
    (fun done i _ _ d p d' p' hinv hrun => ?_) (Replanned.nil _ _) h
  obtain ⟨x, looked, -, -, ⟨hnone, hsame, -⟩ | ⟨old, w, hold, hset, hstart, hstatus, hplans⟩⟩ :=
    replanWeek_steps hrun
  · rw [hsame]
    exact hinv.missing hnone
  · rw [hset]
    exact hinv.set hold hstart hstatus ⟨_, _, _, hplans⟩

/-- A run that plans weeks of a plan anew and succeeds does so from the state in which they are
given back. -/
theorem replanFrom_of_regeneration (h : q.regeneration plan targets = (.ok plan', p)) :
    ∃ t m, q.givenBack plan targets = .ok t ∧ m.rotation = t ∧
      m.source = q.seed.map Twister.ofSeed ∧
        run (q.replanFrom plan targets t) m = (.ok plan', p) := by
  obtain ⟨t, hback, hcheck, -⟩ := regeneration_ok h
  obtain ⟨m, hm, hsource, hrun⟩ :=
    run_regenerateSteps (p := q.start plan.rotation) hcheck hback rfl
  have hsteps := run_reporting_ok.mp h
  rw [hrun] at hsteps
  exact ⟨t, m, hback, hm, hsource, hsteps⟩

/-- Planning weeks anew ends with the complexity of the assignment that is now the last, if the last
week is among them, and else with the one before. -/
theorem replanFrom_steps {before : Rotation} (h : run (q.replanFrom plan targets before) m =
    (.ok plan', p)) :
    ∃ draft m', run (targets.foldlM q.replanWeek ⟨plan.weeks, keptMains plan targets⟩) m =
        (.ok draft, m') ∧ plan'.weeks = draft.weeks ∧
      plan'.rotation = { m'.rotation with
        lastComplexity := if targets.getLast? ≠ some (plan.weeks.length - 1)
          then before.lastComplexity else m'.rotation.lastComplexity } := by
  unfold replanFrom at h
  obtain ⟨draft, m', hdraft, h⟩ := run_bind_ok.mp h
  refine ⟨draft, m', hdraft, ?_⟩
  split at h
  · next hlast =>
      obtain ⟨_, m'', hupdate, h⟩ := run_bind_ok.mp h
      obtain ⟨-, rfl⟩ := Prod.mk.inj hupdate
      rw [← Except.ok.inj (Prod.mk.inj h).1, if_pos hlast]
      exact ⟨rfl, rfl⟩
  · next hlast =>
      rw [← Except.ok.inj (Prod.mk.inj h).1, if_neg hlast]
      exact ⟨rfl, rfl⟩

/-- What becomes of the weeks of a plan in a run that plans some of them anew. -/
theorem replanned_of_regeneration (h : q.regeneration plan targets = (.ok plan', p)) :
    Replanned q.kitchen plan.weeks plan'.weeks targets := by
  obtain ⟨t, m, -, -, -, hrun⟩ := replanFrom_of_regeneration h
  obtain ⟨draft, m', hdraft, hweeks, -⟩ := replanFrom_steps hrun
  rw [hweeks]
  exact replanned_of_foldlM hdraft

end Request

end MealRota
