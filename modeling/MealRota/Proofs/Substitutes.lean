import MealRota.Proofs.Failures

/-!
# MealRota.Proofs.Substitutes

What takes the place of a recipe.  A replacement looks up one slot, and what it puts
there is a recipe of the pool that the slot may have: of its course, not the one that it
had, and for a main course none of its week and none of the current cycle.

* `Plan.findSlot_eq_ok_iff` — which slot a day and a course name;
* `Plan.HasSlot.frames_refill` — what a week keeps when one of its slots is refilled;
* `Request.chooseFor_mayTake` — either way of choosing gives a recipe that may take the slot;
* `Request.substituted_of_replace` — a replacement changes that slot and nothing else.
-/

namespace MealRota

open Planning

/-! ## the slot of a day and a course -/

/-- The slot that a day and a course name: the first assignment for them in the first week that
has the day. -/
structure Plan.FirstSlot (plan : Plan) (date : Date) (course : Course) (slot : FilledSlot) :
    Prop where
  held : plan.HasSlot slot
  covers : slot.week.covers date = true
  fills : slot.assignment.fills date course = true
  weeksBefore : ∀ w ∈ plan.weeks.take slot.weekIndex, w.covers date = false
  assignmentsBefore : ∀ a ∈ slot.week.assignments.take slot.position, a.fills date course = false

/-- The element at an index is the first that passes a test if it does, and none before it. -/
theorem findIdx?_eq_some_iff_take {α : Type} {p : α → Bool} {l : List α} {i : Nat} {x : α}
    (hx : l[i]? = some x) :
    l.findIdx? p = some i ↔ p x = true ∧ ∀ y ∈ l.take i, p y = false := by
  obtain ⟨hi, rfl⟩ := List.getElem?_eq_some_iff.mp hx
  rw [List.findIdx?_eq_some_iff_getElem]
  constructor
  · rintro ⟨_, hp, hbefore⟩
    refine ⟨hp, fun y hy => ?_⟩
    obtain ⟨j, hj, rfl⟩ := List.mem_take_iff_getElem.mp hy
    exact Bool.not_eq_true _ ▸ hbefore j (by omega)
  · rintro ⟨hp, hbefore⟩
    refine ⟨hi, hp, fun j hj => ?_⟩
    rw [hbefore l[j] (List.mem_take_iff_getElem.mpr ⟨j, by omega, rfl⟩)]
    exact Bool.false_ne_true

namespace Plan

variable {plan : Plan} {date : Date} {course : Course} {slot : FilledSlot}

/-- Looking up a slot gives the first one there is, with the assignment that it holds. -/
theorem findSlot_eq_ok_iff :
    plan.findSlot date course = .ok slot ↔ plan.FirstSlot date course slot := by
  constructor
  · intro h
    obtain ⟨hheld, -⟩ := Request.findSlot_ok h
    unfold findSlot at h
    split at h
    · contradiction
    · next i hindex =>
        split at h
        · contradiction
        · next week hweek =>
            split at h
            · next position a hposition ha =>
                obtain rfl := Except.ok.inj h
                obtain ⟨hcovers, hweeks⟩ := (findIdx?_eq_some_iff_take hweek).mp hindex
                obtain ⟨hfills, hassignments⟩ :=
                  (findIdx?_eq_some_iff_take hheld.assignment).mp hposition
                exact ⟨hheld, hcovers, hfills, hweeks, hassignments⟩
            · contradiction
  · intro h
    have hindex : plan.weekIndexFor? date = some slot.weekIndex :=
      (findIdx?_eq_some_iff_take h.held.week).mpr ⟨h.covers, h.weeksBefore⟩
    have hposition : slot.week.assignments.findIdx? (·.fills date course) = some slot.position :=
      (findIdx?_eq_some_iff_take h.held.assignment).mpr ⟨h.fills, h.assignmentsBefore⟩
    have ha : slot.week.assignmentFor? date course = some slot.assignment := by
      rw [Week.assignmentFor?, List.find?_eq_bind_findIdx?_getElem?, hposition]
      exact h.held.assignment
    simp only [findSlot, hindex, h.held.week, hposition, ha]

/-- Where weeks hold assignments for their own days only, the slot is the first in the plan. -/
theorem FirstSlot.first (h : plan.FirstSlot date course slot)
    (hown : ∀ w ∈ plan.weeks, ∀ a ∈ w.assignments, w.covers a.date = true) :
    ∀ a ∈ plan.before slot, a.fills date course = false := by
  intro a ha
  rcases List.mem_append.mp ha with hbefore | hweek
  · obtain ⟨w, hw, ha⟩ := List.mem_flatMap.mp hbefore
    have hcovers := hown w (List.mem_of_mem_take hw) a ha
    rw [← Bool.not_eq_true]
    intro hfills
    simp only [Assignment.fills, Bool.and_eq_true, decide_eq_true_eq] at hfills
    rw [hfills.1, h.weeksBefore w hw] at hcovers
    contradiction
  · exact h.assignmentsBefore a hweek

end Plan

/-- The days and the status of a week. -/
def Week.frame (w : Week) : Date × Date × WeekStatus := (w.start, w.finish, w.status)

/-- Refilling a slot leaves the days and the statuses of the weeks alone. -/
theorem Plan.HasSlot.frames_refill {plan : Plan} {slot : FilledSlot} (h : plan.HasSlot slot)
    (a : Assignment) (t : Rotation) :
    (plan.refill slot a t).weeks.map Week.frame = plan.weeks.map Week.frame := by
  obtain ⟨hin, hweek⟩ := List.getElem?_eq_some_iff.mp h.week
  have hsame : (plan.weeks.map Week.frame).set slot.weekIndex slot.week.frame =
      plan.weeks.map Week.frame := by
    rw [← List.map_set, ← hweek, List.set_getElem_self]
  unfold refill
  rw [List.map_set]
  exact hsame

/-! ## what takes the slot -/

/-- A recipe that may take a slot of a plan: it is in the pool and of the course, it is not the one
that the slot holds and, for a main course, neither in the week nor in the current cycle. -/
structure Request.MayTake (q : Request) (plan : Plan) (slot : FilledSlot) (course : Course)
    (r : Recipe) : Prop where
  pooled : r ∈ q.pool.recipes
  ofCourse : r.course = course
  other : r.id ≠ slot.assignment.recipeId
  notInWeek : course = .main → r.id ∉ slot.week.mainIds
  notInCycle : course = .main → r.id ∉ (currentMains plan.weeks plan.rotation).map (·.1)

namespace Request

variable {q : Request} {plan plan' : Plan} {date : Date} {course : Course} {newId : Option String}
  {slot : FilledSlot} {p m : Progress} {choice : Choice}

/-- What a replacement leaves out is the recipe of the slot and, for a main course, those of its
week and those of the current cycle. -/
theorem mem_leftOut {id : String} :
    id ∈ leftOut plan slot course ↔ id = slot.assignment.recipeId ∨ (course = .main ∧
      (id ∈ slot.week.mainIds ∨ id ∈ (currentMains plan.weeks plan.rotation).map (·.1))) := by
  unfold leftOut excludedFrom
  by_cases hmain : course = .main <;> simp [hmain]

theorem mayTake_iff {r : Recipe} : q.MayTake plan slot course r ↔
    r ∈ q.pool.recipes ∧ r.course = course ∧ r.id ∉ leftOut plan slot course := by
  rw [mem_leftOut]
  constructor
  · rintro ⟨hpooled, hcourse, hother, hweek, hcycle⟩
    refine ⟨hpooled, hcourse, ?_⟩
    rintro (hold | ⟨hmain, hin | hheld⟩)
    · exact hother hold
    · exact hweek hmain hin
    · exact hcycle hmain hheld
  · rintro ⟨hpooled, hcourse, hout⟩
    exact ⟨hpooled, hcourse, fun hold => hout (Or.inl hold),
      fun hmain hin => hout (Or.inr ⟨hmain, Or.inl hin⟩),
      fun hmain hheld => hout (Or.inr ⟨hmain, Or.inr hheld⟩)⟩

/-- Whether the caller chose a recipe or the best alternative is sought, what is found may take the
slot; and it is the one that the caller chose. -/
theorem chooseFor_mayTake {t : Rotation} {context : SlotContext}
    (h : run (q.chooseFor t context course (leftOut plan slot course) newId) m =
      (.ok choice, p)) :
    q.MayTake plan slot course choice.recipe ∧ ∀ id, newId = some id → choice.recipe.id = id := by
  rw [mayTake_iff]
  cases newId with
  | some id =>
      obtain ⟨r, m', hr, hassign⟩ := run_bind_ok.mp h
      obtain ⟨hget, hcourse, hout, -⟩ := chosenRecipe_eq_ok_iff.mp (run_lift_ok hr).1
      obtain ⟨hmem, rfl⟩ := Pool.mem_of_get? hget
      have hassigns := q.kitchen.assigns_assign context r false m'
      rw [hassign] at hassigns
      rw [hassigns.of_ok.1]
      exact ⟨⟨hmem, hcourse, hout⟩, fun id hid => Option.some.inj hid⟩
  | none =>
      obtain ⟨hcandidate, -⟩ := (bestAlternative_ok h).of_some
      obtain ⟨hin, hout⟩ := Kitchen.mem_candidates.mp hcandidate
      obtain ⟨hmem, hcourse⟩ := Pool.mem_forCourse.mp hin
      exact ⟨⟨hmem, hcourse, hout⟩, nofun⟩

/-! ## the whole replacement -/

/-- A replacement succeeds only if its day and its course could be read. -/
theorem read_of_replace {day : Except PlanError Date} {meal : Except PlanError Course}
    (h : (q.replace plan day meal newId).result = .ok plan') :
    ∃ date course, day = .ok date ∧ meal = .ok course := by
  obtain ⟨m, hrun⟩ : ∃ m, run (q.replaceSteps plan day meal newId) (q.start plan.rotation) =
      (.ok plan', m) := ⟨_, Prod.ext h rfl⟩
  obtain ⟨made, m₁, hchoice, -⟩ := run_bind_ok.mp hrun
  obtain ⟨date, m₂, hdate, hrest⟩ := run_bind_ok.mp (run_reporting_ok.mp hchoice)
  obtain ⟨course, m₃, hcourse, -⟩ := run_bind_ok.mp hrest
  exact ⟨date, course, (run_lift_ok hdate).1, (run_lift_ok hcourse).1⟩

/-- A replacement that succeeds fills the slot of its day and its course with a recipe that may take
it. -/
theorem replacement_mayTake (h : q.replacement plan date course newId = (.ok plan', p)) :
    ∃ slot new r, plan.FirstSlot date course slot ∧ plan' = plan.refill slot new plan'.rotation ∧
      new.date = date ∧ new.course = course ∧ new.recipeId = r.id ∧
      q.MayTake plan slot course r ∧ ∀ id, newId = some id → r.id = id := by
  obtain ⟨slot, context, choice, new, m, hchoice, hassign, hplan, -⟩ := replacement_steps h
  obtain ⟨t, m', hopens, hchosen, -⟩ := replaceChoice_eq_ok_iff.mp hchoice
  obtain ⟨hmay, hgiven⟩ := chooseFor_mayTake hchosen
  obtain ⟨hdate, hcourse, hrecipe, -⟩ := Choice.toAssignment_ok hassign
  obtain ⟨-, hslotDate, hslotCourse⟩ := findSlot_ok hopens.found
  rw [(contextOf_ok hopens.context).1, hslotDate] at hdate
  exact ⟨slot, new, choice.recipe, Plan.findSlot_eq_ok_iff.mp hopens.found, hplan, hdate,
    hcourse.trans hslotCourse, hrecipe, hmay, hgiven⟩

/-- Neither reading a day nor reading a course finds that there are too few recipes. -/
theorem reads_sufficient (value : Value) (minimum current : Int) :
    readDate value ≠ .error (.insufficientRecipes minimum current) ∧
      readCourse value ≠ .error (.insufficientRecipes minimum current) := by
  have hraised : ∀ e : PlanError, e ≠ .insufficientRecipes minimum current →
      e.raised ≠ .insufficientRecipes minimum current :=
    fun e he => PlanError.raised_induction (p := (· ≠ _)) he nofun
  constructor
  · unfold readDate
    cases Date.ofValue value with
    | ok d => exact nofun
    | error problem =>
        exact fun h => hraised (.invalidDate (.notIso value problem)) nofun (Except.error.inj h)
  · unfold readCourse
    split
    · exact nofun
    · exact fun h => hraised (.unknownCourse value) nofun (Except.error.inj h)

/-- A replacement never fails because there are too few recipes, unless that is why its day or its
course could not be read. -/
theorem sufficient_of_replace {day : Except PlanError Date} {meal : Except PlanError Course}
    {minimum current : Int}
    (h : (q.replace plan day meal newId).result = .error (.insufficientRecipes minimum current)) :
    day = .error (.insufficientRecipes minimum current) ∨
      meal = .error (.insufficientRecipes minimum current) := by
  refine (q.replacement_failsOnly plan day meal newId _ h).resolve_left ?_
  rintro (hsingle | hcheck)
  · exact hsingle.sufficient minimum current rfl
  · unfold Rotation.check at hcheck
    split at hcheck <;> simp at hcheck

/-- A replacement that succeeds changes one assignment, the first for its day and its course, and
keeps all others, their order and the days and the statuses of the weeks.  The new assignment is for
the same day and course, and its recipe may take the slot: it meets the dietary restrictions, it is
not the one replaced and, for a main course, none of the week and none of the current cycle; it is
the one that the caller chose, if the caller chose one.  And no replacement, of a day and a course
that are read from whatever values, fails because there are too few recipes. -/
theorem substituted_of_replace (q : Request) (plan : Plan) (day : Except PlanError Date)
    (meal : Except PlanError Course) (newId : Option String) :
    (∀ plan', (q.replace plan day meal newId).result = .ok plan' →
      ∃ date course slot new r, day = .ok date ∧ meal = .ok course ∧
        plan.FirstSlot date course slot ∧
        ((∀ w ∈ plan.weeks, ∀ a ∈ w.assignments, w.covers a.date = true) →
          ∀ a ∈ plan.before slot, a.fills date course = false) ∧
        plan' = plan.refill slot new plan'.rotation ∧
        plan.assignments = plan.before slot ++ slot.assignment :: plan.after slot ∧
        plan'.assignments = plan.before slot ++ new :: plan.after slot ∧
        plan'.weeks.map Week.frame = plan.weeks.map Week.frame ∧
        new ≠ slot.assignment ∧ new.date = date ∧ new.course = course ∧ new.recipeId = r.id ∧
        r ∈ Pool.eligible q.recipes q.rules.preferences ∧ q.MayTake plan slot course r ∧
        ∀ id, newId = some id → r.id = id) ∧
    (∀ minimum current,
      (q.replace plan day meal newId).result = .error (.insufficientRecipes minimum current) →
        day = .error (.insufficientRecipes minimum current) ∨
          meal = .error (.insufficientRecipes minimum current)) ∧
    ∀ value value' minimum current,
      (q.replace plan (readDate value) (readCourse value') newId).result ≠
        .error (.insufficientRecipes minimum current) := by
  refine ⟨fun plan' h => ?_, fun minimum current h => sufficient_of_replace h,
    fun value value' minimum current h => ?_⟩
  · obtain ⟨date, course, rfl, rfl⟩ := read_of_replace h
    obtain ⟨slot, new, r, hfirst, hplan, hdate, hcourse, hrecipe, hmay, hgiven⟩ :=
      replacement_mayTake (p := (q.replacement plan date course newId).2) (Prod.ext h rfl)
    refine ⟨date, course, slot, new, r, rfl, rfl, hfirst, hfirst.first, hplan,
      hfirst.held.assignments_eq, ?_, ?_, ?_, hdate, hcourse, hrecipe,
      Pool.mem_of_mem_ofRecipes hmay.pooled, hmay, hgiven⟩
    · rw [hplan, hfirst.held.assignments_refill]
    · rw [hplan, hfirst.held.frames_refill]
    · rintro rfl
      exact hmay.other hrecipe.symm
  · rcases sufficient_of_replace h with hdate | hcourse
    · exact (reads_sufficient value minimum current).1 hdate
    · exact (reads_sufficient value' minimum current).2 hcourse

/-- The Tuesday of a week of seven main courses, of which the pool has eight, is replaced: the
eighth is the only one left. -/
theorem substituted_of_replace_eighth :
    let q := ofRecipes (["a", "b", "c", "d", "e", "f", "g", "h"].map (Recipe.plain .main))
    ∃ plan plan', (q.generate none (some 1) (.ok autumnMonday)).result = .ok plan ∧
      (q.replace plan (.ok (autumnDay 1)) (.ok .main) none).result = .ok plan' ∧
      plan.mainIds = ["a", "b", "c", "d", "e", "f", "g"] ∧
      plan'.mainIds = ["a", "h", "c", "d", "e", "f", "g"] ∧
      ∃ slot new, plan.FirstSlot (autumnDay 1) .main slot ∧
        plan.assignments = plan.before slot ++ slot.assignment :: plan.after slot ∧
        plan'.assignments = plan.before slot ++ new :: plan.after slot ∧
        new ≠ slot.assignment := by
  intro q
  have hrun : ((q.generate none (some 1) (.ok autumnMonday)).result.toOption.any fun plan =>
      plan.mainIds = ["a", "b", "c", "d", "e", "f", "g"] ∧
      (q.replace plan (.ok (autumnDay 1)) (.ok .main) none).result.toOption.any fun plan' =>
        plan'.mainIds = ["a", "h", "c", "d", "e", "f", "g"]) = true := by
    decide +kernel
  obtain ⟨plan, hplan, hrun⟩ := (Option.any_eq_true _ _).mp hrun
  obtain ⟨hmains, hrun⟩ := of_decide_eq_true hrun
  obtain ⟨plan', hplan', hmains'⟩ := (Option.any_eq_true _ _).mp hrun
  have hok := eq_ok_of_toOption hplan'
  obtain ⟨date, course, slot, new, r, hdate, hcourse, hfirst, -, -, hbefore, hafter, -, hne, -⟩ :=
    (substituted_of_replace q plan (.ok (autumnDay 1)) (.ok .main) none).1 plan' hok
  obtain rfl := Except.ok.inj hdate
  obtain rfl := Except.ok.inj hcourse
  exact ⟨plan, plan', eq_ok_of_toOption hplan, hok, hmains, of_decide_eq_true hmains', slot, new,
    hfirst, hbefore, hafter, hne⟩

end Request

end MealRota
