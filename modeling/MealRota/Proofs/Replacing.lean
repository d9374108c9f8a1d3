import MealRota.Plan.Replace
import MealRota.Proofs.GivingBack
import MealRota.Proofs.Labels

/-!
# MealRota.Proofs.Replacing

Replacing the recipe of one slot.  Unlike the other tasks it may begin a new
cycle before all recipes of the course were used, but it takes no main course
that is marked.

* `MainsTrace` — how a stretch of a run is told by events that take no marked main course;
* `Request.replacement_ok` — what a replacement that succeeds comes to.
-/

namespace MealRota

open Planning

/-! ## stretches that take no marked main course -/

/-- The events of a stretch of a run tell what it does to the marks, and take no main course that
is marked. -/
structure MainsTrace (a b : Progress) (events : List Event) : Prop where
  journal : b.journal = a.journal ++ events
  use : b.rotation.SameUse (replay a.rotation events)
  free : MainsFree a.rotation events

theorem Pool.Trace.mainsTrace {pool : Pool} {a b : Progress} {events : List Event}
    (h : pool.Trace a b events) : MainsTrace a b events :=
  ⟨h.journal, h.use, h.lawful.mainsFree⟩

namespace MainsTrace

variable {a b c : Progress} {l m : List Event}

theorem trans (h : MainsTrace a b l) (h' : MainsTrace b c m) : MainsTrace a c (l ++ m) where
  journal := by rw [h'.journal, h.journal, List.append_assoc]
  use := by
    rw [replay_append]
    exact h'.use.trans (h.use.replay m)
  free := h.free.append (h'.free.congr h.use.symm)

/-- A cycle that begins anew, for whatever reason. -/
theorem renewed (a : Progress) (d : Course) (candidates : List Recipe) :
    ∃ events, MainsTrace a (a.renewed d candidates) events ∧ takings events = [] := by
  unfold Progress.renewed
  split
  · refine ⟨[.cycleReset d a.rotation.cycle (a.rotation.cycle + 1) candidates.length],
      ⟨rfl, Rotation.SameUse.refl _, ⟨fun id hid => ?_, trivial⟩⟩, rfl⟩
    exact absurd hid List.not_mem_nil
  · exact ⟨[], ⟨(List.append_nil _).symm, Rotation.SameUse.refl _, trivial⟩, rfl⟩

/-- The complexity of the last assignment is no part of what is traced. -/
theorem withComplexity (h : MainsTrace a b l) (x : Option Float) :
    MainsTrace a { b with rotation := { b.rotation with lastComplexity := x } } l :=
  ⟨h.journal, ⟨h.use.cycle, h.use.used⟩, h.free⟩

end MainsTrace

/-- What a choice takes of the main courses is its recipe, if the slot is for one. -/
theorem takenOf_main_of_choice {events : List Event} {choice : Choice} {c : Course}
    (h : takings events = choice.takings c) :
    takenOf .main events = if c = .main then [choice.recipe.id] else [] := by
  have hsides : ((choice.side.toList.map fun r => (Course.side, r.id)).filter
      fun x => x.1 = .main) = [] := by
    rw [List.filter_eq_nil_iff]
    rintro x hx hmain
    obtain ⟨r, -, rfl⟩ := List.mem_map.mp hx
    have hne : Course.side ≠ Course.main := by decide
    exact absurd (of_decide_eq_true hmain) hne
  unfold takenOf
  rw [h, Choice.takings, List.filter_cons, hsides]
  by_cases hc : c = .main <;> simp [hc]

/-! ## the choice -/

namespace Kitchen

variable {k : Kitchen} {c : Course} {slot : SlotContext} {excluded : List String} {p q : Progress}
  {choice : Choice}

/-- A slot filled from the pool takes no main course that is marked. -/
theorem Selects.mainsTrace (h : k.Selects c slot excluded p (.ok (some choice)) q) :
    ∃ events, MainsTrace p q events ∧ takings events = choice.takings c := by
  obtain ⟨hcand, hpass, -, source, hassign⟩ := h.of_some
  obtain ⟨hmem, hcourse⟩ := Pool.mem_forCourse.mp (mem_candidates.mp hcand).1
  have hfree : ((k.slotMoment c excluded p).drawn source).rotation.isUsed choice.recipe.course
      choice.recipe.id = false := Scorer.not_isUsed_of_passes hpass rfl
  obtain ⟨before, hbefore, hnone⟩ := MainsTrace.renewed p c (k.candidates c excluded)
  obtain ⟨after, hafter, -, htakings⟩ := hassign.trace hmem hfree
  have hdrawn := (Pool.Trace.drawn k.pool (k.slotMoment c excluded p) source).trans hafter
  refine ⟨before ++ ([] ++ after), hbefore.trans hdrawn.mainsTrace, ?_⟩
  rw [takings_append, hnone, List.nil_append, List.nil_append, htakings choice rfl, hcourse]

end Kitchen

/-- A slot that a plan has: an assignment in one of its weeks. -/
structure Plan.HasSlot (plan : Plan) (slot : FilledSlot) : Prop where
  week : plan.weeks[slot.weekIndex]? = some slot.week
  assignment : slot.week.assignments[slot.position]? = some slot.assignment

theorem Plan.HasSlot.mem {plan : Plan} {slot : FilledSlot} (h : plan.HasSlot slot) :
    slot.assignment ∈ plan.assignments :=
  List.mem_flatMap.mpr
    ⟨slot.week, List.mem_of_getElem? h.week, List.mem_of_getElem? h.assignment⟩

namespace Request

variable {q : Request} {plan plan' : Plan} {date : Date} {course : Course} {newId : Option String}
  {p m : Progress} {choice : Choice}

/-- A recipe that the caller chose may take the slot if the pool has it for the course, and it is
neither excluded nor marked. -/
theorem chosenRecipe_eq_ok_iff {t : Rotation} {excluded : List String} {id : String} {r : Recipe} :
    q.chosenRecipe t course excluded id = .ok r ↔
      q.pool.get? id = some r ∧ r.course = course ∧ id ∉ excluded ∧ t.isUsed course id = false := by
  unfold chosenRecipe
  cases hget : q.pool.get? id with
  | none => simp
  | some r' =>
      simp only [Option.some.injEq]
      split
      · next hcourse =>
          refine iff_of_false (by simp) ?_
          rintro ⟨rfl, hsame, -⟩
          exact hcourse hsame
      · next hcourse =>
          split
          · next htaken =>
              refine iff_of_false (by simp) ?_
              rintro ⟨-, -, hout, hfree⟩
              simp [hout, hfree] at htaken
          · next hfree =>
              simp only [List.contains_iff_mem, not_or, Bool.not_eq_true] at hfree
              constructor
              · intro h
                obtain rfl := Except.ok.inj h
                exact ⟨rfl, Decidable.not_not.mp hcourse, hfree⟩
              · rintro ⟨rfl, -⟩
                rfl

theorem chosenRecipe_ok {t : Rotation} {excluded : List String} {id : String} {r : Recipe}
    (h : q.chosenRecipe t course excluded id = .ok r) :
    r ∈ q.pool.recipes ∧ r.course = course ∧ t.isUsed course r.id = false := by
  obtain ⟨hget, hcourse, -, hfree⟩ := chosenRecipe_eq_ok_iff.mp h
  obtain ⟨hmem, rfl⟩ := Pool.mem_of_get? hget
  exact ⟨hmem, hcourse, hfree⟩

/-- The best alternative is what the pool is searched for. -/
theorem run_select_of_bestAlternative {slot : SlotContext} {excluded : List String}
    (h : run (q.bestAlternative slot course excluded) m = (.ok choice, p)) :
    run (q.kitchen.select course slot excluded) m = (.ok (some choice), p) := by
  unfold bestAlternative at h
  simp only at h
  split at h
  · obtain ⟨_, m', hfail, -⟩ := run_bind_ok.mp h
    simp at hfail
  · obtain ⟨chosen, m', hrun, h⟩ := run_bind_ok.mp h
    cases chosen with
    | none => simp at h
    | some choice' =>
        rw [run_pure] at h
        obtain ⟨hchoice, hp⟩ := Prod.mk.inj h
        rw [hrun, Except.ok.inj hchoice, hp]

/-- The best alternative is chosen from the pool. -/
theorem bestAlternative_ok {slot : SlotContext} {excluded : List String}
    (h : run (q.bestAlternative slot course excluded) m = (.ok choice, p)) :
    q.kitchen.Selects course slot excluded m (.ok (some choice)) p := by
  have hselects := q.kitchen.selects_select course slot excluded m
  rw [run_select_of_bestAlternative h] at hselects
  exact hselects

/-- A given recipe that is not marked is taken. -/
theorem assign_trace {slot : SlotContext} {r : Recipe} (hr : r ∈ q.pool.recipes)
    (hfree : m.rotation.isUsed r.course r.id = false)
    (h : run (q.kitchen.assign slot r false) m = (.ok choice, p)) :
    ∃ events, MainsTrace m p events ∧ takings events = choice.takings r.course := by
  have hassigns := q.kitchen.assigns_assign slot r false m
  rw [h] at hassigns
  obtain ⟨events, htrace, -, htakings⟩ := hassigns.trace hr hfree
  exact ⟨events, htrace.mainsTrace, htakings choice rfl⟩

/-! ## the whole replacement -/

/-- The main course that the slot of a replacement gives back: its own, if its week holds it. -/
def releasedMain (plan : Plan) (slot : FilledSlot) : List String :=
  if holder? (currentMains plan.weeks plan.rotation) slot.assignment.recipeId = some slot.weekIndex
  then [slot.assignment.recipeId] else []

/-- A slot is refilled from the marks of the plan without the main course that it gives back. -/
theorem isUsed_of_releasedMain {slot : FilledSlot} {t : Rotation}
    (h : q.release (releasedMain plan slot) [slot.assignment] plan.rotation = .ok t)
    (hcheck : plan.rotation.check q.recipes = .ok ()) (id : String) :
    t.isUsed .main id = true ↔
      plan.rotation.isUsed .main id = true ∧ id ∉ releasedMain plan slot := by
  refine isUsed_of_release h hcheck (fun id hid => ?_) id
  unfold releasedMain at hid
  split at hid
  · next hholder =>
      rw [List.mem_singleton.mp hid]
      refine ⟨(mem_currentMains (holder?_currentMains.mp hholder)).1, ?_⟩
      exact List.mem_flatMap.mpr ⟨slot.assignment, List.mem_cons_self, List.mem_cons_self⟩
  · exact absurd hid List.not_mem_nil

theorem recordPool_ok (h : run q.recordPool m = (.ok (), p)) :
    ∃ remarks, MainsTrace m p remarks ∧ takings remarks = [] ∧ p.rotation = m.rotation := by
  obtain ⟨remarks, hremarks, -, hnone⟩ := q.recordPool_follows m
  rw [h] at hremarks hnone
  obtain ⟨-, rfl⟩ := Prod.mk.inj h
  exact ⟨remarks, hremarks.mainsTrace, hnone () rfl, rfl⟩

/-- What takes the slot of a replacement: the recipe that the caller chose, or the best
alternative. -/
def chooseFor (q : Request) (t : Rotation) (context : SlotContext) (course : Course)
    (excluded : List String) : Option String → Planning Choice
  | some id => do
      q.kitchen.assign context (← Planning.lift (q.chosenRecipe t course excluded id)) false
  | none => q.bestAlternative context course excluded

/-- A replacement gets as far as its choice: the slot is found and given back, and what comes before
it is known. -/
structure Opens (q : Request) (plan : Plan) (date : Date) (course : Course)
    (newId : Option String) (slot : FilledSlot) (context : SlotContext) (t : Rotation) : Prop where
  found : plan.findSlot date course = .ok slot
  /-- The recipe that the caller chose, if any, is not the one that the slot holds. -/
  another : newId ≠ some slot.assignment.recipeId
  fits : plan.rotation.check q.recipes = .ok ()
  back : q.release (releasedMain plan slot) [slot.assignment] plan.rotation = .ok t
  context : q.contextOf slot = .ok context

/-- The progress when the choice of a replacement begins. -/
def opened (q : Request) (t : Rotation) : Progress :=
  { q.start t with journal := Pool.ofEligibleEvents q.recipes q.rules.preferences }

/-- The recipes that a replacement leaves out. -/
def leftOut (plan : Plan) (slot : FilledSlot) (course : Course) : List String :=
  excludedFrom slot course (currentMains plan.weeks plan.rotation)

/-- A choice is followed by putting back the complexity of the last assignment. -/
def chooseAndKeep (q : Request) (t : Rotation) (slot : FilledSlot) (context : SlotContext)
    (course : Course) (excluded : List String) (newId : Option String) :
    Planning (FilledSlot × SlotContext × Choice) := do
  let choice ← q.chooseFor t context course excluded newId
  Planning.updateRotation fun s => { s with lastComplexity := t.lastComplexity }
  return (slot, context, choice)

/-- Once a replacement got so far, what is left of it is the choice. -/
theorem run_replaceChoice {slot : FilledSlot} {context : SlotContext} {t : Rotation}
    (h : q.Opens plan date course newId slot context t) :
    run (q.replaceChoice plan date course newId) (q.start plan.rotation) =
      run (q.chooseAndKeep t slot context course (leftOut plan slot course) newId)
        (q.opened t) := by
  have hback : run (q.releaseAll (releasedMain plan slot) [slot.assignment])
      (q.start plan.rotation) = (.ok (), q.start t) := by
    rw [run_releaseAll, show q.release _ _ (q.start plan.rotation).rotation = _ from h.back]
    rfl
  have hcheck : run q.checkRotation (q.start plan.rotation) = (.ok (), q.start plan.rotation) :=
    congrArg (·, _) h.fits
  unfold replaceChoice chooseAndKeep
  rw [run_bind_of_ok (run_lift_of_ok h.found _)]
  simp only [if_neg h.another]
  rw [run_bind_of_ok hcheck]
  refine (run_bind_of_ok hback _).trans ?_
  rw [run_bind_of_ok (run_lift_of_ok h.context _), run_bind_of_ok (run_rotation _)]
  refine (run_bind_of_ok (show run q.recordPool (q.start t) = (.ok (), q.opened t) from rfl)
    _).trans ?_
  cases newId with
  | some id => exact congrArg (run · _) (bind_assoc _ _ _).symm
  | none => rfl

/-- A replacement whose choice succeeds got as far as that. -/
theorem opens_of_replaceChoice {slot : FilledSlot} {context : SlotContext}
    (h : run (q.replaceChoice plan date course newId) (q.start plan.rotation) =
      (.ok (slot, context, choice), p)) :
    ∃ t, q.Opens plan date course newId slot context t := by
  unfold replaceChoice at h
  obtain ⟨slot', m₁, hslot, h⟩ := run_bind_ok.mp h
  obtain ⟨hfound, rfl⟩ := run_lift_ok hslot
  simp only at h
  have hnew : ¬ newId = some slot'.assignment.recipeId := by
    intro hsame
    rw [if_pos hsame] at h
    obtain ⟨_, m₂, hfail, -⟩ := run_bind_ok.mp h
    simp at hfail
  rw [if_neg hnew] at h
  obtain ⟨_, m₂, hcheck, h⟩ := run_bind_ok.mp h
  obtain ⟨hfits, rfl⟩ : plan.rotation.check q.recipes = .ok () ∧ q.start plan.rotation = m₂ :=
    run_lift_ok hcheck
  obtain ⟨_, m₃, hrelease, h⟩ := run_bind_ok.mp h
  obtain ⟨t, hback, rfl⟩ := run_releaseAll_ok hrelease
  obtain ⟨context', m₄, hcontext, h⟩ := run_bind_ok.mp h
  obtain ⟨hplace, rfl⟩ := run_lift_ok hcontext
  have hopens : q.Opens plan date course newId slot' context' t :=
    ⟨hfound, hnew, hfits, hback, hplace⟩
  -- the slot and what comes before it are handed on as they were found
  obtain ⟨before, m₅, -, h⟩ := run_bind_ok.mp h
  obtain ⟨_, m₆, -, h⟩ := run_bind_ok.mp h
  cases newId with
  | some id =>
      obtain ⟨r, m₇, -, h⟩ := run_bind_ok.mp h
      obtain ⟨choice', m₈, -, h⟩ := run_bind_ok.mp h
      obtain ⟨rfl, hrest⟩ := Prod.mk.inj (Except.ok.inj (Prod.mk.inj h).1)
      exact ⟨t, (Prod.mk.inj hrest).1 ▸ hopens⟩
  | none =>
      obtain ⟨choice', m₇, -, h⟩ := run_bind_ok.mp h
      obtain ⟨rfl, hrest⟩ := Prod.mk.inj (Except.ok.inj (Prod.mk.inj h).1)
      exact ⟨t, (Prod.mk.inj hrest).1 ▸ hopens⟩

/-- A replacement gives the slot back, chooses what takes it, and keeps the complexity of the
last assignment. -/
theorem replaceChoice_eq_ok_iff {slot : FilledSlot} {context : SlotContext} :
    run (q.replaceChoice plan date course newId) (q.start plan.rotation) =
        (.ok (slot, context, choice), p) ↔
      ∃ t m, q.Opens plan date course newId slot context t ∧
        run (q.chooseFor t context course (leftOut plan slot course) newId) (q.opened t) =
          (.ok choice, m) ∧
        p = { m with rotation := { m.rotation with lastComplexity := t.lastComplexity } } := by
  constructor
  · intro h
    obtain ⟨t, hopens⟩ := opens_of_replaceChoice h
    rw [run_replaceChoice hopens] at h
    obtain ⟨choice', m, hchosen, hlast⟩ := run_bind_ok.mp h
    obtain ⟨hresult, rfl⟩ := Prod.mk.inj hlast
    obtain ⟨-, hchoice⟩ := Prod.mk.inj (Prod.mk.inj (Except.ok.inj hresult)).2
    exact ⟨t, m, hopens, hchoice ▸ hchosen, rfl⟩
  · rintro ⟨t, m, hopens, hchosen, rfl⟩
    rw [run_replaceChoice hopens]
    exact run_bind_ok.mpr ⟨choice, m, hchosen, rfl⟩

theorem replaceChoice_steps {slot : FilledSlot} {context : SlotContext}
    (h : run (q.replaceChoice plan date course newId) (q.start plan.rotation) =
      (.ok (slot, context, choice), p)) :
    plan.findSlot date course = .ok slot ∧ plan.rotation.check q.recipes = .ok () ∧
      q.contextOf slot = .ok context ∧
      ∃ t excluded m m',
        q.release (releasedMain plan slot) [slot.assignment] plan.rotation = .ok t ∧
        run q.recordPool { q.start plan.rotation with rotation := t } = (.ok (), m) ∧
        run (q.chooseFor t context course excluded newId) m = (.ok choice, m') ∧
        p = { m' with rotation := { m'.rotation with lastComplexity := t.lastComplexity } } := by
  obtain ⟨t, m, hopens, hchosen, hlast⟩ := replaceChoice_eq_ok_iff.mp h
  exact ⟨hopens.found, hopens.fits, hopens.context, t, _, q.opened t, m, hopens.back, rfl, hchosen,
    hlast⟩

/-- What takes the slot of a replacement is no main course that is marked. -/
theorem chooseFor_trace {context : SlotContext} {excluded : List String}
    (h : run (q.chooseFor m.rotation context course excluded newId) m = (.ok choice, p)) :
    ∃ events, MainsTrace m p events ∧ takings events = choice.takings course := by
  cases newId with
  | some id =>
      obtain ⟨r, m', hr, hassign⟩ := run_bind_ok.mp h
      obtain ⟨hchosen, rfl⟩ := run_lift_ok hr
      obtain ⟨hmem, rfl, hfree⟩ := chosenRecipe_ok hchosen
      exact assign_trace hmem hfree hassign
  | none => exact (bestAlternative_ok h).mainsTrace

/-- The choice of a replacement takes no main course that is marked, once the slot is given back. -/
theorem replaceChoice_ok {slot : FilledSlot} {context : SlotContext}
    (h : run (q.replaceChoice plan date course newId) (q.start plan.rotation) =
      (.ok (slot, context, choice), p)) :
    plan.findSlot date course = .ok slot ∧ plan.rotation.check q.recipes = .ok () ∧
      ∃ t events, q.release (releasedMain plan slot) [slot.assignment] plan.rotation = .ok t ∧
        MainsTrace { q.start plan.rotation with rotation := t } p events ∧
        takings events = choice.takings course := by
  obtain ⟨hfound, hfits, -, t, excluded, m, m', hback, hpool, hchosen, rfl⟩ := replaceChoice_steps h
  obtain ⟨remarks, hremarks, hnone, hsame⟩ := recordPool_ok hpool
  rw [show t = m.rotation from hsame.symm] at hchosen
  obtain ⟨events, hevents, htakings⟩ := chooseFor_trace hchosen
  refine ⟨hfound, hfits, t, remarks ++ events, hback, (hremarks.trans hevents).withComplexity _, ?_⟩
  rw [takings_append, hnone, List.nil_append, htakings]

/-- A slot that is found is one of the plan, of the day and of the course. -/
theorem findSlot_ok {slot : FilledSlot} (h : plan.findSlot date course = .ok slot) :
    plan.HasSlot slot ∧ slot.assignment.date = date ∧ slot.assignment.course = course := by
  unfold Plan.findSlot at h
  cases hindex : plan.weekIndexFor? date with
  | none =>
      rw [hindex] at h
      contradiction
  | some i =>
      rw [hindex] at h
      cases hweek : plan.weeks[i]? with
      | none =>
          simp only [hweek] at h
          contradiction
      | some week =>
          simp only [hweek, Week.assignmentFor?] at h
          split at h
          · next position a hposition ha =>
              rw [← Except.ok.inj h]
              have hget : week.assignments[position]? = some a := by
                rw [List.find?_eq_bind_findIdx?_getElem?, hposition] at ha
                exact ha
              have hfills := List.find?_some ha
              simp only [Assignment.fills, Bool.and_eq_true, decide_eq_true_eq] at hfills
              exact ⟨⟨hweek, hget⟩, hfills⟩
          · contradiction

/-- The run behind replacing the recipe of a slot. -/
def replacement (q : Request) (plan : Plan) (date : Date) (course : Course)
    (newId : Option String) : Except PlanError Plan × Progress :=
  run (q.replaceSteps plan (.ok date) (.ok course) newId) (q.start plan.rotation)

/-- A replacement that succeeds refills its slot with the assignment that its choice makes. -/
theorem replacement_steps (h : q.replacement plan date course newId = (.ok plan', p)) :
    ∃ slot context choice a m,
      run (q.replaceChoice plan date course newId) (q.start plan.rotation) =
        (.ok (slot, context, choice), m) ∧
      choice.toAssignment q.rules.formula slot.assignment.course context = .ok a ∧
      plan' = plan.refill slot a plan'.rotation ∧ plan'.rotation = m.rotation ∧
      p = m.note (.mealReplaced slot.assignment.date slot.assignment.course
        slot.assignment.recipeId a.recipeId) := by
  unfold replacement replaceSteps at h
  obtain ⟨⟨slot, context, choice⟩, m₁, hchoice, h⟩ := run_bind_ok.mp h
  have hchosen : run (q.replaceChoice plan date course newId) (q.start plan.rotation) =
      (.ok (slot, context, choice), m₁) := run_reporting_ok.mp hchoice
  obtain ⟨a, m₂, ha, h⟩ := run_bind_ok.mp h
  obtain ⟨hassign, rfl⟩ := run_lift_ok ha
  obtain ⟨_, m₃, hrecord, h⟩ := run_bind_ok.mp h
  obtain ⟨-, rfl⟩ := Prod.mk.inj hrecord
  obtain ⟨hplan, rfl⟩ := Prod.mk.inj h
  refine ⟨slot, context, choice, a, m₁, hchosen, hassign, ?_, ?_, rfl⟩
  · rw [← Except.ok.inj hplan]
    rfl
  · rw [← Except.ok.inj hplan]
    rfl

/-- A replacement that succeeds refills its slot with what it took, which is no marked main
course. -/
theorem replacement_ok (h : q.replacement plan date course newId = (.ok plan', p)) :
    ∃ slot a t, plan.findSlot date course = .ok slot ∧ plan.rotation.check q.recipes = .ok () ∧
      q.release (releasedMain plan slot) [slot.assignment] plan.rotation = .ok t ∧
      a.course = course ∧ plan' = plan.refill slot a plan'.rotation ∧
      plan'.rotation.SameUse (replay t p.journal) ∧ MainsFree t p.journal ∧
      takenOf .main p.journal = if course = .main then [a.recipeId] else [] := by
  obtain ⟨slot, context, choice, a, m, hchosen, hassign, hplan, hrotation, rfl⟩ :=
    replacement_steps h
  obtain ⟨hfound, hfits, t, events, hback, htrace, htakings⟩ := replaceChoice_ok hchosen
  obtain ⟨-, hcourse, hrecipe, -⟩ := Choice.toAssignment_ok hassign
  rw [(findSlot_ok hfound).2.2] at hcourse
  have hremark := htrace.trans (Pool.Trace.remark (p := q.pool) (a := m)
    (e := .mealReplaced slot.assignment.date slot.assignment.course slot.assignment.recipeId
      a.recipeId) rfl).mainsTrace
  have hjournal := hremark.journal
  rw [show ({ q.start plan.rotation with rotation := t } : Progress).journal = [] from rfl,
    List.nil_append] at hjournal
  refine ⟨slot, a, t, hfound, hfits, hback, hcourse, hplan, ?_, hjournal.symm ▸ hremark.free, ?_⟩
  · rw [hrotation]
    exact hjournal.symm ▸ hremark.use
  · rw [hjournal, takenOf_append, takenOf_main_of_choice htakings, hrecipe]
    exact List.append_nil _

end Request

end MealRota
