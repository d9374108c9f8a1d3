import MealRota.Proofs.PlannedWeeks
import MealRota.Proofs.Relabelling

/-!
# MealRota.Proofs.Suitability

What fills the slots of a plan suits them.  A slot is filled by the best candidate
or by a draw, before or after a cycle began anew, and side dishes may be chosen with
use disregarded; on each of these ways the hard constraints stand between the
candidates and the slot.

* `Rules.Allow` — what the rules demand of a recipe on a day;
* `Kitchen.Accompanies` — which side dishes may come with a main course;
* `Kitchen.Selects.suits`, `Kitchen.Plans.serves` — a slot, and all slots of a week;
* `Request.serves_in_every_run` — the slots that each task fills.
-/

namespace MealRota

open Planning

/-! ## what is demanded -/

/-- A recipe stays within the time of the day and within the skill of the cook. -/
structure Rules.Allow (rules : Rules) (date : Date) (r : Recipe) : Prop where
  time : r.totalMinutes ≤ rules.preferences.ceiling date.isWeekend
  skill : ∃ x, r.complexityScore rules.formula = .ok x ∧
    rules.preferences.skill.allows (.ofScore x) = true

namespace Kitchen

/-- A side dish may come with a main course: the main course takes one, of a category that the
side dish has if any is preferred; the side dish is allowed on the day; and the two are not both
complex if complex recipes must not follow each other. -/
structure Accompanies (k : Kitchen) (date : Date) (main side : Recipe) : Prop where
  isMain : main.course = .main
  takesSide : main.takesSide = true
  mem : side ∈ k.pool.forCourse .side
  category : main.preferredSides = [] ∨
    ∃ category ∈ main.preferredSides, side.sideCategory = some category
  allowed : k.rules.Allow date side
  light : k.rules.preferences.avoidConsecutiveComplex = true → ∀ x y,
    main.complexityScore k.rules.formula = .ok x → side.complexityScore k.rules.formula = .ok y →
      ¬ (isComplex (some x) = true ∧ isComplex (some y) = true)

/-- A recipe, with a side dish or without, suits a course on a day. -/
structure Suits (k : Kitchen) (c : Course) (date : Date) (r : Recipe) (side : Option Recipe) :
    Prop where
  mem : r ∈ k.pool.forCourse c
  allowed : k.rules.Allow date r
  accompanied : ∀ s, side = some s → k.Accompanies date r s

/-- An assignment serves recipes of the pool that suit its course and its day. -/
def Serves (k : Kitchen) (a : Assignment) : Prop :=
  ∃ r side, a.recipeId = r.id ∧ a.sideId = side.map (·.id) ∧ k.Suits a.course a.date r side

end Kitchen

/-! ## what passes -/

theorem SkillLevel.allows_advanced (c : Complexity) : SkillLevel.advanced.allows c = true := by
  cases c <;> rfl

namespace Scorer

variable {s : Scorer} {r : Recipe}

/-- A recipe that passes the hard constraints is allowed on the day, and is not the second of two
complex ones in a row. -/
theorem allow_of_passes (h : s.rejection? r = .ok none)
    (hweekend : s.slot.weekend = s.slot.date.isWeekend) :
    s.rules.Allow s.slot.date r ∧ (s.rules.preferences.avoidConsecutiveComplex = true →
      ∀ x, r.complexityScore s.rules.formula = .ok x →
        ¬ (isComplex (some x) = true ∧ isComplex s.slot.preceding = true)) := by
  obtain ⟨x, hx⟩ := complexityScore_of_passes h
  unfold rejection? at h
  split at h
  · simp at h
  · next htime =>
      split at h
      · simp at h
      · rw [hx] at h
        have hpass : s.complexityRejection? x = none := Except.ok.inj h
        unfold complexityRejection? at hpass
        simp only at hpass
        split at hpass
        · contradiction
        · next hskill =>
            split at hpass
            · contradiction
            · next hrow =>
                refine ⟨⟨?_, x, hx, ?_⟩, fun havoid y hy hboth => ?_⟩
                · rw [← hweekend]
                  exact Nat.le_of_not_lt htime
                · by_cases hadvanced : s.rules.preferences.skill = .advanced
                  · rw [hadvanced]
                    exact SkillLevel.allows_advanced _
                  · by_contra hnot
                    exact hskill ⟨hadvanced, hnot⟩
                · rw [hx] at hy
                  rw [← Except.ok.inj hy] at hboth
                  exact hrow ⟨havoid, hboth⟩

end Scorer

namespace Kitchen

variable {k : Kitchen} {c : Course} {slot : SlotContext} {p q : Progress} {main side : Recipe}
  {excluded : List String} {x : Float} {choice : Choice}

theorem mem_sidesFor : side ∈ k.pool.sidesFor main ↔
    main.takesSide = true ∧ side ∈ k.pool.forCourse .side ∧
      (main.preferredSides = [] ∨
        ∃ category ∈ main.preferredSides, side.sideCategory = some category) := by
  unfold Pool.sidesFor
  cases htakes : main.takesSide with
  | false => simp
  | true =>
      cases hpreferred : main.preferredSides with
      | nil => simp
      | cons category rest => cases hside : side.sideCategory <;> simp [hside]

/-- A side dish that is paired with a main course may come with it. -/
theorem Pairs.accompanies (h : k.Pairs slot main x p (.ok (some side)) q)
    (hweekend : slot.weekend = slot.date.isWeekend) (hmain : main.course = .main)
    (hx : main.complexityScore k.rules.formula = .ok x) : k.Accompanies slot.date main side := by
  cases h with
  | paired source _ hside hpass =>
      obtain ⟨htakes, hcourse, hcategory⟩ := mem_sidesFor.mp hside
      obtain ⟨hallow, hlight⟩ := Scorer.allow_of_passes hpass hweekend
      refine ⟨hmain, htakes, hcourse, hcategory, hallow, fun havoid y z hy hz hboth => ?_⟩
      rw [hx] at hy
      rw [← Except.ok.inj hy] at hboth
      exact hlight havoid z hz hboth.symm

/-- A side dish that a slot is filled with may come with the recipe of the slot. -/
theorem Assigns.accompanies {r : Recipe} {reset : Bool}
    (h : k.Assigns slot r reset p (.ok choice) q) (hweekend : slot.weekend = slot.date.isWeekend)
    (hside : choice.side = some side) : k.Accompanies slot.date r side := by
  generalize hres : (Except.ok choice : Except PlanError Choice) = result at h
  cases h with
  | unscored hx => contradiction
  | alone x hx hno =>
      rw [Except.ok.inj hres] at hside
      contradiction
  | accompanied x hx hmain result q hpair =>
      cases result with
      | error e => contradiction
      | ok chosen =>
          rw [Except.ok.inj hres] at hside
          have hchosen : chosen = some side := hside
          rw [hchosen] at hpair
          exact hpair.accompanies hweekend hmain.1 hx

/-- What a slot is filled with from the pool suits it. -/
theorem Selects.suits (h : k.Selects c slot excluded p (.ok (some choice)) q)
    (hweekend : slot.weekend = slot.date.isWeekend) :
    k.Suits c slot.date choice.recipe choice.side := by
  obtain ⟨hcand, hpass, -, source, hassign⟩ := h.of_some
  exact ⟨(mem_candidates.mp hcand).1, (Scorer.allow_of_passes hpass hweekend).1,
    fun side hside => hassign.accompanies hweekend hside⟩

/-! ## the slots of a week -/

/-- What filling a slot adds to a week serves it. -/
theorem fillSlot_serves {draft draft' : WeekDraft} {place : Date × Course}
    (hd : ∀ a ∈ draft.assignments, k.Serves a)
    (h : run (k.fillSlot draft place) p = (.ok draft', q)) :
    ∀ a ∈ draft'.assignments, k.Serves a := by
  obtain ⟨day, c⟩ := place
  obtain ⟨excluded, locked, m, result, q', hready, hselects, hrun⟩ := k.run_fillSlot draft day c p
  rw [hrun] at h
  obtain ⟨hresult, -⟩ := Prod.mk.inj h
  cases result with
  | error e => contradiction
  | ok chosen =>
      cases chosen with
      | none =>
          rw [← Except.ok.inj hresult]
          exact hd
      | some choice =>
          obtain ⟨a, hdate, hcourse, hrecipe, hside, hassign, -⟩ := addChoice_ok hresult
          have hsuits : k.Suits c day choice.recipe choice.side := hselects.suits rfl
          rw [hassign]
          intro b hb
          rcases List.mem_append.mp hb with hb | hb
          · exact hd b hb
          · rw [List.mem_singleton.mp hb]
            refine ⟨choice.recipe, choice.side, hrecipe, hside, ?_⟩
            rw [hcourse, hdate]
            exact hsuits

/-- What a planned week serves suits its slots. -/
theorem Plans.serves {locked : List String} {w : Week} (h : k.Plans locked w p q) :
    ∀ a ∈ w.assignments, k.Serves a := by
  obtain ⟨days, draft, m, hrun, -, hassign, -⟩ := h.slots
  rw [hassign]
  exact run_foldlM_ok (fun _ d _ => ∀ a ∈ d.assignments, k.Serves a)
    (fun done place rest _ d p d' q hd hslot => fillSlot_serves hd hslot)
    (fun a ha => absurd ha List.not_mem_nil) hrun

end Kitchen

/-! ## the tasks -/

namespace Request

variable {q : Request} {plan plan' : Plan} {p : Progress}

/-- The pool has none but recipes that meet the dietary restrictions. -/
theorem mem_eligible_of_mem_pool {r : Recipe} (h : r ∈ q.pool.recipes) :
    r ∈ Pool.eligible q.recipes q.rules.preferences :=
  Pool.mem_of_mem_ofRecipes h

theorem serves_of_generation {given : Option Rotation} {weekCount : Option Int}
    {start : Except PlanError Date} (h : (q.generate given weekCount start).result = .ok plan) :
    ∀ w ∈ plan.weeks, ∀ a ∈ w.assignments, q.kitchen.Serves a := by
  obtain ⟨m, m', -, -, -, hturn, -⟩ := weeks_of_generate h
  intro w hw
  obtain ⟨p, p', hplans⟩ := hturn.of_mem hw
  exact hplans.serves

theorem serves_of_regeneration {first : Int} {targets : List Nat} {i : Nat}
    (h : (q.regenerate plan first targets).result = .ok plan') (hi : i ∈ targets)
    (hlt : i < plan.weeks.length) :
    ∃ w, plan'.weeks[i]? = some w ∧ ∀ a ∈ w.assignments, q.kitchen.Serves a := by
  have hreplanned := replanned_of_regeneration (regenerate_ok h).2.1
  have hold : plan.weeks[i]? = some plan.weeks[i] := List.getElem?_eq_getElem hlt
  obtain ⟨w, hw, -⟩ := hreplanned.kept i _ hold
  obtain ⟨locked, m, m', hplans⟩ := hreplanned.planned i hi w hw
  exact ⟨w, hw, hplans.serves⟩

/-- A slot is refilled on its own day. -/
theorem contextOf_ok {slot : FilledSlot} {context : SlotContext}
    (h : q.contextOf slot = .ok context) :
    context.date = slot.assignment.date ∧ context.weekend = slot.assignment.date.isWeekend := by
  unfold contextOf at h
  simp only at h
  cases hpreceding : q.complexityOf
      (if slot.position = 0 then none else slot.week.assignments[slot.position - 1]?) with
  | error e =>
      rw [hpreceding] at h
      contradiction
  | ok preceding =>
      rw [hpreceding] at h
      rw [← Except.ok.inj h]
      exact ⟨rfl, rfl⟩

/-- The best alternative for a slot is found for the slot's own day and course. -/
theorem serves_of_replacement {date : Date} {course : Course}
    (h : q.replacement plan date course none = (.ok plan', p)) :
    ∃ slot a, plan.findSlot date course = .ok slot ∧
      plan' = plan.refill slot a plan'.rotation ∧ a.date = date ∧ a.course = course ∧
        q.kitchen.Serves a := by
  obtain ⟨slot, context, choice, a, m, hchoice, hassign, hplan, -⟩ := replacement_steps h
  obtain ⟨hfound, -, hcontext, t, excluded, m₁, m₂, -, -, hchosen, -⟩ := replaceChoice_steps hchoice
  obtain ⟨-, hdate, hcourse⟩ := findSlot_ok hfound
  obtain ⟨hday, hown, hrecipe, hside⟩ := Choice.toAssignment_ok hassign
  obtain ⟨hday', hweekend⟩ := contextOf_ok hcontext
  have hsuits := (bestAlternative_ok hchosen).suits (by rw [hweekend, hday'])
  have hdate' : context.date = date := hday'.trans hdate
  rw [hdate'] at hday hsuits
  rw [hcourse] at hown
  refine ⟨slot, a, hfound, hplan, hday, hown, choice.recipe, choice.side, hrecipe, hside, ?_⟩
  rw [hday, hown]
  exact hsuits

/-- Whatever a task chooses for a slot, with or without random numbers and by any formula, suits the
slot.  It is a recipe of the eligible ones, of the slot's course, allowed on the slot's own day, and
a side dish stands only beside a main course that it may accompany.  This holds of every slot of a
generated plan, of every week that is planned anew, and of a slot that is filled with the best
alternative. -/
theorem serves_in_every_run (q : Request) :
    (∀ r ∈ q.pool.recipes, r ∈ Pool.eligible q.recipes q.rules.preferences) ∧
    (∀ given weekCount start plan, (q.generate given weekCount start).result = .ok plan →
      ∀ a ∈ plan.assignments, q.kitchen.Serves a) ∧
    (∀ plan index plan', (q.regenerateWeek plan index).result = .ok plan' →
      ∃ w, plan'.weeks[index.toNat]? = some w ∧ ∀ a ∈ w.assignments, q.kitchen.Serves a) ∧
    (∀ plan index plan', (q.regenerateFrom plan index).result = .ok plan' →
      ∀ i, index.toNat ≤ i → i < plan.weeks.length →
        ∃ w, plan'.weeks[i]? = some w ∧ ∀ a ∈ w.assignments, q.kitchen.Serves a) ∧
    (∀ plan date course plan', (q.replace plan (.ok date) (.ok course) none).result = .ok plan' →
      ∃ slot a, plan.findSlot date course = .ok slot ∧
        plan' = plan.refill slot a plan'.rotation ∧ a.date = date ∧ a.course = course ∧
          q.kitchen.Serves a) := by
  refine ⟨fun r hr => mem_eligible_of_mem_pool hr, fun given weekCount start plan h => ?_,
    fun plan index plan' h => ?_, fun plan index plan' h i hle hlt => ?_,
    fun plan date course plan' h => ?_⟩
  · intro a ha
    obtain ⟨w, hw, ha⟩ := List.mem_flatMap.mp ha
    exact serves_of_generation h w hw a ha
  · have hindex := (regenerate_ok h).1
    exact serves_of_regeneration h (List.mem_singleton.mpr rfl) (by omega)
  · exact serves_of_regeneration h (Plan.mem_indicesFrom.mpr ⟨hle, hlt⟩) hlt
  · exact serves_of_replacement (p := (q.replacement plan date course none).2) (Prod.ext h rfl)

/-- Eight main courses, of which one comes with a side dish and one takes too long for a weeknight,
fill a week; the week is planned anew, and its first main course is replaced. -/
theorem serves_in_every_run_eight :
    let q := ofRecipes (["a", "b", "c", "d", "e", "f"].map (.plain .main) ++
      [{ Recipe.plain .main "g" with takesSide := true },
        { Recipe.plain .main "h" with cookMinutes := some 60 }, .plain .side "s"])
    ∃ plan, (q.generate none (some 1) (.ok Date.first)).result = .ok plan ∧
      (∀ a ∈ plan.assignments, q.kitchen.Serves a) ∧
      (∃ plan', (q.regenerateWeek plan 0).result = .ok plan' ∧
        ∃ w, plan'.weeks[0]? = some w ∧ ∀ a ∈ w.assignments, q.kitchen.Serves a) ∧
      ∃ plan', (q.replace plan (.ok Date.first) (.ok .main) none).result = .ok plan' ∧
        ∃ slot a, plan.findSlot Date.first .main = .ok slot ∧
          plan' = plan.refill slot a plan'.rotation ∧ q.kitchen.Serves a := by
  intro q
  have hrun : ((q.generate none (some 1) (.ok Date.first)).result.toOption.any fun plan =>
      (q.regenerateWeek plan 0).result.toOption.isSome ∧
        (q.replace plan (.ok Date.first) (.ok .main) none).result.toOption.isSome) = true := by
    decide +kernel
  obtain ⟨plan, hplan, hedits⟩ := (Option.any_eq_true _ _).mp hrun
  obtain ⟨hweek, hmeal⟩ := of_decide_eq_true hedits
  obtain ⟨planned, hplanned⟩ := exists_of_isSome hweek
  obtain ⟨replaced, hreplaced⟩ := exists_of_isSome hmeal
  have hok := eq_ok_of_toOption hplan
  obtain ⟨-, hgenerated, hanew, -, hrefilled⟩ := serves_in_every_run q
  obtain ⟨slot, a, hfound, hrefill, -, -, hserves⟩ := hrefilled _ _ _ _ hreplaced
  exact ⟨plan, hok, hgenerated _ _ _ _ hok, ⟨planned, hplanned, hanew _ _ _ hplanned⟩,
    replaced, hreplaced, slot, a, hfound, hrefill, hserves⟩

end Request

end MealRota
