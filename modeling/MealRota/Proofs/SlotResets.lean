import MealRota.Proofs.CurrentCycle
import MealRota.Proofs.Substitutes

/-!
# MealRota.Proofs.SlotResets

When filling a single slot begins a new cycle of the slot's course.  Pairing concerns the
side dishes only, so a given recipe never begins one; a choice from the pool begins one
if all candidates were used.  A replacement has fewer candidates than the course has
recipes, since it leaves some out: those of a generated plan are used as well.

* `Kitchen.Selects.resetsOf_eq` — one slot;
* `Request.resetsOf_replacement` — a replacement, by its candidates;
* `Request.resets_iff_of_replace` — a replacement in a generated plan, by all recipes of the course.
-/

namespace MealRota

open Planning Progress

/-! ## one slot -/

namespace Kitchen

variable {k : Kitchen} {c : Course} {slot : SlotContext} {p q : Progress} {main r : Recipe}
  {excluded : List String} {x : Float}

/-- Pairing begins no new cycle but of the side dishes. -/
theorem Pairs.resetsOf_eq {result : Except PlanError (Option Recipe)}
    (h : k.Pairs slot main x p result q) (hc : c ≠ .side) :
    resetsOf c q.journal = resetsOf c p.journal := by
  have hsought : resetsOf c (p.note (.sideSought main.id slot.date)).journal =
      resetsOf c p.journal := by simp [resetsOf, Event.resets]
  have hmoment : resetsOf c (k.sideMoment slot main p).journal =
      resetsOf c p.journal := by
    rw [← hsought]
    unfold sideMoment sidesRenewed Progress.renewed
    split
    · simp [resetsOf, Event.resets, hc]
    · rfl
  cases h with
  | unsuited hnil => exact hsought
  | unscored source hne => exact hmoment
  | unfit source hne hall => simpa [resetsOf, Event.resets] using hmoment
  | paired source side hside hpass => simpa [resetsOf, Event.resets] using hmoment

/-- Filling a slot with a given recipe begins no new cycle of the recipe's course. -/
theorem Assigns.resetsOf_eq {reset : Bool} {result : Except PlanError Choice}
    (h : k.Assigns slot r reset p result q) :
    resetsOf r.course q.journal = resetsOf r.course p.journal := by
  have htaking : resetsOf r.course (p.taking r).journal =
      resetsOf r.course p.journal := by simp [resetsOf, Event.resets]
  cases h with
  | unscored hx => exact htaking
  | alone y hy hside => exact htaking
  | accompanied y hy hside result q hpair =>
      have hmain : r.course ≠ .side := by
        rw [hside.1]
        decide
      exact (hpair.resetsOf_eq hmain).trans htaking

/-- A choice is made after a new cycle of the course was begun, if all candidates were used. -/
theorem resetsOf_slotMoment (k : Kitchen) (c : Course) (excluded : List String) (p : Progress) :
    resetsOf c (k.slotMoment c excluded p).journal = resetsOf c p.journal +
      if ∀ r ∈ k.candidates c excluded, p.rotation.isUsed c r.id = true then 1 else 0 := by
  unfold slotMoment Progress.renewed
  split
  · simp [resetsOf, Event.resets]
  · rfl

/-- A choice from the pool begins a new cycle of the course, once, if all candidates were used. -/
theorem Selects.resetsOf_eq {choice : Choice}
    (h : k.Selects c slot excluded p (.ok (some choice)) q) :
    resetsOf c q.journal = resetsOf c p.journal +
      if ∀ r ∈ k.candidates c excluded, p.rotation.isUsed c r.id = true then 1 else 0 := by
  obtain ⟨hcandidate, -, -, source, hassign⟩ := h.of_some
  have hcourse := (Pool.mem_forCourse.mp (mem_candidates.mp hcandidate).1).2
  have hafter := hassign.resetsOf_eq
  rw [hcourse, drawn_journal] at hafter
  rw [hafter, resetsOf_slotMoment]

end Kitchen

/-! ## a replacement -/

namespace Request

variable {q : Request} {plan plan' : Plan} {date : Date} {course : Course} {newId : Option String}
  {slot : FilledSlot} {p : Progress}

/-- The making of the pool begins no new cycle. -/
theorem resetsOf_opened (q : Request) (t : Rotation) (c : Course) :
    resetsOf c (q.opened t).journal = 0 := by
  rw [resetsOf, List.countP_eq_zero]
  intro e he
  rcases List.mem_cons.mp he with rfl | he
  · exact Bool.false_ne_true
  · obtain ⟨id, -, rfl⟩ := List.mem_map.mp he
    exact Bool.false_ne_true

/-- A replacement begins a new cycle of the slot's course if it seeks the best alternative and all
candidates were used, the slot being given back; and then it is once. -/
theorem resetsOf_replacement (h : q.replacement plan date course newId = (.ok plan', p)) :
    ∃ slot context t r, q.Opens plan date course newId slot context t ∧
      r ∈ q.kitchen.candidates course (leftOut plan slot course) ∧
      resetsOf course p.journal =
        if newId = none ∧ ∀ r ∈ q.kitchen.candidates course (leftOut plan slot course),
          t.isUsed course r.id = true then 1 else 0 := by
  obtain ⟨slot, context, choice, a, m, hchoice, -, -, -, rfl⟩ := replacement_steps h
  obtain ⟨t, m', hopens, hchosen, rfl⟩ := replaceChoice_eq_ok_iff.mp hchoice
  obtain ⟨hpooled, hcourse, hout⟩ := mayTake_iff.mp (chooseFor_mayTake hchosen).1
  refine ⟨slot, context, t, choice.recipe, hopens,
    Kitchen.mem_candidates.mpr ⟨Pool.mem_forCourse.mpr ⟨hpooled, hcourse⟩, hout⟩, ?_⟩
  have hremark : resetsOf course (({ m' with rotation :=
      { m'.rotation with lastComplexity := t.lastComplexity } } : Progress).note
        (.mealReplaced slot.assignment.date slot.assignment.course slot.assignment.recipeId
          a.recipeId)).journal = resetsOf course m'.journal := by simp [resetsOf, Event.resets]
  rw [hremark]
  cases newId with
  | some id =>
      rw [if_neg fun hnone => Option.some_ne_none id hnone.1]
      obtain ⟨r, m₁, hr, hassign⟩ := run_bind_ok.mp hchosen
      obtain ⟨hgiven, rfl⟩ := run_lift_ok hr
      obtain ⟨-, rfl, -⟩ := chosenRecipe_ok hgiven
      have hassigns := q.kitchen.assigns_assign context r false (q.opened t)
      rw [hassign] at hassigns
      rw [hassigns.resetsOf_eq, resetsOf_opened]
  | none =>
      rw [(bestAlternative_ok hchosen).resetsOf_eq, resetsOf_opened, Nat.zero_add]
      simp only [true_and]
      rfl

/-! ## in a generated plan -/

/-- The slot gives back no main course but its own. -/
theorem eq_of_mem_releasedMain {id : String} (h : id ∈ releasedMain plan slot) :
    id = slot.assignment.recipeId := by
  unfold releasedMain at h
  split at h
  · exact List.mem_singleton.mp h
  · exact absurd h List.not_mem_nil

/-- The main courses of the current cycle of a generated plan are those of its last cycle. -/
theorem mem_currentMains_of_generate {g : Request} {given : Option Rotation}
    {weekCount : Option Int} {start : Except PlanError Date} {id : String}
    (h : (g.generate given weekCount start).result = .ok plan) :
    id ∈ (currentMains plan.weeks plan.rotation).map (·.1) ↔
      id ∈ lastCycleOf .main (g.generate given weekCount start).journal := by
  rw [currentMains_of_generate h, List.map_reverse, List.mem_reverse,
    Plan.map_fst_currentSlots (takenOf_main_of_generate h)]

/-- The main courses of a generated plan were all used, unless the recipes that are used are just
those of the current cycle. -/
theorem mains_used_or_current {g : Request} {given : Option Rotation} {weekCount : Option Int}
    {start : Except PlanError Date} (h : (g.generate given weekCount start).result = .ok plan) :
    (∀ id ∈ plan.mainIds, plan.rotation.isUsed .main id = true) ∨
      ∀ id, plan.rotation.isUsed .main id = true →
        id ∈ (currentMains plan.weeks plan.rotation).map (·.1) := by
  by_cases hresets : resetsOf .main (g.generate given weekCount start).journal = 0
  · refine Or.inl fun id hid => (isUsed_of_generate h .main id).mpr (Or.inl ?_)
    rwa [lastCycleOf_of_no_resets hresets, takenOf_main_of_generate h]
  · refine Or.inr fun id hused => (mem_currentMains_of_generate h).mpr ?_
    exact ((isUsed_of_generate h .main id).mp hused).resolve_right fun hnone => hresets hnone.1

/-- In a generated plan, if all candidates for a slot were used, and there are some, then so were all
recipes of the course but the one that is replaced. -/
theorem isUsed_of_candidates {g : Request} {given : Option Rotation} {weekCount : Option Int}
    {start : Except PlanError Date} {context : SlotContext} {t : Rotation} {r : Recipe}
    (h : (g.generate given weekCount start).result = .ok plan)
    (hopens : q.Opens plan date course newId slot context t)
    (hr : r ∈ q.kitchen.candidates course (leftOut plan slot course))
    (hall : ∀ r ∈ q.kitchen.candidates course (leftOut plan slot course),
      t.isUsed course r.id = true) :
    ∀ r ∈ q.pool.forCourse course, r.id ≠ slot.assignment.recipeId →
      t.isUsed course r.id = true := by
  intro r' hr' hother
  by_cases hin : r'.id ∈ leftOut plan slot course
  swap
  · exact hall r' (Kitchen.mem_candidates.mpr ⟨hr', hin⟩)
  rcases mem_leftOut.mp hin with hold | ⟨rfl, hmains⟩
  · exact absurd hold hother
  have hback := isUsed_of_releasedMain hopens.back hopens.fits
  have hkept : ∀ id, id ≠ slot.assignment.recipeId → plan.rotation.isUsed .main id = true →
      t.isUsed .main id = true := fun id hne hused =>
    (hback id).mpr ⟨hused, fun hreleased => hne (eq_of_mem_releasedMain hreleased)⟩
  refine hkept r'.id hother ?_
  rcases hmains with hweek | hheld
  · rcases mains_used_or_current h with hmarked | hcurrent
    · refine hmarked r'.id (List.mem_flatMap.mpr ⟨slot.week, ?_, hweek⟩)
      exact List.mem_of_getElem? (findSlot_ok hopens.found).1.week
    · -- a candidate that was used would be one of the current cycle, and left out
      have hused := ((hback r.id).mp (hall r hr)).1
      have hout := (Kitchen.mem_candidates.mp hr).2
      exact absurd (mem_leftOut.mpr (Or.inr ⟨rfl, Or.inr (hcurrent r.id hused)⟩)) hout
  · obtain ⟨⟨id, i⟩, hmem, hid⟩ := List.mem_map.mp hheld
    rw [← hid]
    exact (mem_currentMains hmem).1

/-- A replacement in a generated plan begins a new cycle of the slot's course, and only one, just if
the best alternative is sought and all eligible recipes of the course other than the replaced one
were used, the slot being given back.  The state of the new plan has what the events tell. -/
theorem resets_iff_of_replace {g : Request} {given : Option Rotation} {weekCount : Option Int}
    {start : Except PlanError Date} (hplan : (g.generate given weekCount start).result = .ok plan)
    (h : (q.replace plan (.ok date) (.ok course) newId).result = .ok plan') :
    let journal := (q.replace plan (.ok date) (.ok course) newId).journal
    ∃ slot t, plan.FirstSlot date course slot ∧
      q.release (releasedMain plan slot) [slot.assignment] plan.rotation = .ok t ∧
      (resetsOf course journal ≠ 0 ↔ newId = none ∧ ∀ r ∈ q.pool.forCourse course,
        r.id ≠ slot.assignment.recipeId → t.isUsed course r.id = true) ∧
      resetsOf course journal ≤ 1 ∧ plan'.rotation.SameUse (replay t journal) := by
  intro journal
  have hrun : q.replacement plan date course newId =
      (.ok plan', (q.replacement plan date course newId).2) := Prod.ext h rfl
  obtain ⟨slot, context, t, r, hopens, hr, hresets⟩ := resetsOf_replacement hrun
  obtain ⟨slot', a, t', hfound, -, hback, -, -, hreplay, -⟩ := replacement_ok hrun
  obtain rfl := Except.ok.inj (hopens.found.symm.trans hfound)
  obtain rfl := Except.ok.inj (hopens.back.symm.trans hback)
  refine ⟨slot, t, Plan.findSlot_eq_ok_iff.mp hfound, hback, ?_, ?_, hreplay⟩
  · rw [show resetsOf course journal = _ from hresets]
    simp only [ne_eq, ite_eq_right_iff, Nat.one_ne_zero, imp_false, not_not]
    refine and_congr_right fun _ => ⟨isUsed_of_candidates hplan hopens hr, fun hall r hr => ?_⟩
    obtain ⟨hin, hout⟩ := Kitchen.mem_candidates.mp hr
    exact hall r hin fun hold => hout (mem_leftOut.mpr (Or.inl hold))
  · rw [show resetsOf course journal = _ from hresets]
    split
    · exact Nat.le_refl 1
    · exact Nat.zero_le 1

/-- Of two desserts the other one takes the place of the Tuesday's, and it was used on the Sunday. -/
theorem resets_iff_of_replace_dessert :
    let q := ofRecipes [.plain .main "a", .plain .main "b", .plain .dessert "y",
      .plain .dessert "z"]
    let tuesday := autumnDay 1
    ∃ plan plan', (q.generate none (some 1) (.ok autumnMonday)).result = .ok plan ∧
      (q.replace plan (.ok tuesday) (.ok .dessert) none).result = .ok plan' ∧
      resetsOf .dessert (q.replace plan (.ok tuesday) (.ok .dessert) none).journal ≠ 0 ∧
      ∃ slot t, plan.FirstSlot tuesday .dessert slot ∧
        q.release (releasedMain plan slot) [slot.assignment] plan.rotation = .ok t ∧
        ∀ r ∈ q.pool.forCourse .dessert, r.id ≠ slot.assignment.recipeId →
          t.isUsed .dessert r.id = true := by
  intro q tuesday
  have hrun : ((q.generate none (some 1) (.ok autumnMonday)).result.toOption.any fun plan =>
      (q.replace plan (.ok tuesday) (.ok .dessert) none).result.toOption.isSome = true ∧
        resetsOf .dessert (q.replace plan (.ok tuesday) (.ok .dessert) none).journal ≠ 0) =
          true := by
    decide +kernel
  obtain ⟨plan, hplan, hrun⟩ := (Option.any_eq_true _ _).mp hrun
  obtain ⟨hsome, hresets⟩ := of_decide_eq_true hrun
  obtain ⟨plan', hplan'⟩ := exists_of_isSome hsome
  have hok := eq_ok_of_toOption hplan
  obtain ⟨slot, t, hfirst, hback, hiff, -⟩ := resets_iff_of_replace hok hplan'
  exact ⟨plan, plan', hok, hplan', hresets, slot, t, hfirst, hback, (hiff.mp hresets).2⟩

end Request

end MealRota
