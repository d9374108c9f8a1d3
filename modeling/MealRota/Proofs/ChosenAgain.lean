import MealRota.Proofs.SlotResets

/-!
# MealRota.Proofs.ChosenAgain

The two ways of replacing a recipe agree.  What the planner finds to be the best
alternative, the caller may as well have chosen: every check of a chosen recipe is
implied by its being found, as long as no new cycle had to begin for it to be found.

* `Kitchen.run_assign_of_select` — a choice without a new cycle is the filling of the slot with the
  recipe chosen;
* `Request.chooseFor_again` — choosing what was found;
* `Request.same_of_replace` — the replacement by what was found is the same replacement.
-/

namespace MealRota

open Planning

/-! ## choosing without random numbers -/

/-- Without a source of random numbers the best candidate is chosen. -/
theorem run_chooseFrom_of_no_source (s : Scorer) (candidates : List Recipe) {p : Progress}
    (h : p.source = none) : run (chooseFrom s candidates) p = (s.best? candidates, p) := by
  unfold chooseFrom
  rw [run_bind_of_ok (run_isRandom p), h]
  rfl

/-- Where not all candidates were used, a choice without random numbers is the filling of the slot
with the recipe that is chosen. -/
theorem Kitchen.run_assign_of_select {k : Kitchen} {c : Course} {slot : SlotContext}
    {excluded : List String} {p q : Progress} {choice : Choice} (hsource : p.source = none)
    (hfree : ¬ ∀ r ∈ k.candidates c excluded, p.rotation.isUsed c r.id = true)
    (h : run (k.select c slot excluded) p = (.ok (some choice), q)) :
    run (k.assign slot choice.recipe false) p = (.ok choice, q) := by
  have hrenew : run (renewCourse c (k.candidates c excluded)) p = (.ok false, p) := by
    rw [run_renewCourse, decide_eq_false hfree, Progress.renewed, if_neg hfree]
  unfold select at h
  simp only [List.isEmpty_iff] at h
  split at h
  · split at h <;> simp at h
  · rw [run_bind_of_ok hrenew, run_bind_of_ok (run_rotation p)] at h
    obtain ⟨found, m, hfound, h⟩ := run_bind_ok.mp h
    rw [run_chooseFrom_of_no_source _ _ hsource] at hfound
    obtain ⟨-, rfl⟩ := Prod.mk.inj hfound
    cases found with
    | none =>
        obtain ⟨rejections, m, -, h⟩ := run_bind_ok.mp h
        split at h
        · simp at h
        · obtain ⟨_, m', -, h⟩ := run_bind_ok.mp h
          simp at h
    | some r =>
        obtain ⟨choice', m, hassign, h⟩ := run_bind_ok.mp h
        obtain ⟨hchoice, rfl⟩ := Prod.mk.inj h
        obtain rfl := Option.some.inj (Except.ok.inj hchoice)
        have hassigns := k.assigns_assign slot r false p
        rw [hassign] at hassigns
        rw [hassigns.of_ok.1]
        exact hassign

namespace Request

variable {q : Request} {plan plan' : Plan} {date : Date} {course : Course}
  {newId newId' : Option String} {slot : FilledSlot} {p m : Progress} {choice : Choice}
  {context : SlotContext} {t : Rotation}

/-- A recipe that was found as the best alternative, without a new cycle, may as well be chosen. -/
theorem chooseFor_again {excluded : List String} (hsource : m.source = none)
    (hfree : ¬ ∀ r ∈ q.kitchen.candidates course excluded, m.rotation.isUsed course r.id = true)
    (h : run (q.chooseFor m.rotation context course excluded none) m = (.ok choice, p)) :
    run (q.chooseFor m.rotation context course excluded (some choice.recipe.id)) m =
      (.ok choice, p) := by
  obtain ⟨hcandidate, hpasses, -⟩ := (bestAlternative_ok h).of_some
  obtain ⟨hin, hout⟩ := Kitchen.mem_candidates.mp hcandidate
  obtain ⟨hpooled, hcourse⟩ := Pool.mem_forCourse.mp hin
  have hmoment : q.kitchen.slotMoment course excluded m = m := by
    rw [Kitchen.slotMoment, Progress.renewed, if_neg hfree]
  have hunused := Scorer.not_isUsed_of_passes hpasses rfl
  simp only [Kitchen.slotScorer, hmoment, hcourse] at hunused
  have hchosen : q.chosenRecipe m.rotation course excluded choice.recipe.id = .ok choice.recipe :=
    chosenRecipe_eq_ok_iff.mpr ⟨Pool.get?_of_mem hpooled, hcourse, hout, hunused⟩
  refine (run_bind_of_ok (run_lift_of_ok hchosen m) _).trans ?_
  exact Kitchen.run_assign_of_select hsource hfree (run_select_of_bestAlternative h)

/-! ## the whole replacement -/

/-- A replacement is determined by the choice that it makes. -/
theorem replacement_congr
    (h : run (q.replaceChoice plan date course newId) (q.start plan.rotation) =
      run (q.replaceChoice plan date course newId') (q.start plan.rotation)) :
    q.replacement plan date course newId = q.replacement plan date course newId' := by
  have hreported : ∀ id, run (reporting .replacement do
        let date ← lift (.ok date)
        let course ← lift (.ok course)
        q.replaceChoice plan date course id) (q.start plan.rotation) =
      run (reporting .replacement (q.replaceChoice plan date course id))
        (q.start plan.rotation) := fun id => rfl
  unfold replacement replaceSteps
  rw [run_bind, run_bind, hreported, hreported, run_reporting, run_reporting, h]

/-- If the best alternative is found without a new cycle of the slot's course, the replacement by the
recipe that was found, chosen by the caller, is the same: the same plan with the same rotation
state, by way of the same events. -/
theorem same_of_replace (hseed : q.seed = none)
    (h : (q.replace plan (.ok date) (.ok course) none).result = .ok plan')
    (hresets : resetsOf course (q.replace plan (.ok date) (.ok course) none).journal = 0) :
    ∃ slot new, plan.FirstSlot date course slot ∧ plan' = plan.refill slot new plan'.rotation ∧
      q.replace plan (.ok date) (.ok course) (some new.recipeId) =
        q.replace plan (.ok date) (.ok course) none := by
  have hrun : q.replacement plan date course none =
      (.ok plan', (q.replacement plan date course none).2) := Prod.ext h rfl
  obtain ⟨slot, context, choice, new, m, hchoice, hassign, hplan, -⟩ := replacement_steps hrun
  obtain ⟨t, m', hopens, hchosen, hlast⟩ := replaceChoice_eq_ok_iff.mp hchoice
  obtain ⟨slot', context', t', r, hopens', -, hcount⟩ := resetsOf_replacement hrun
  obtain rfl := Except.ok.inj (hopens.found.symm.trans hopens'.found)
  obtain rfl := Except.ok.inj (hopens.back.symm.trans hopens'.back)
  have hfree : ¬ ∀ r ∈ q.kitchen.candidates course (leftOut plan slot course),
      t.isUsed course r.id = true := by
    intro hall
    rw [if_pos ⟨rfl, hall⟩] at hcount
    exact Nat.one_ne_zero (hcount.symm.trans hresets)
  have hsource : (q.opened t).source = none := by
    show q.seed.map Twister.ofSeed = none
    rw [hseed, Option.map_none]
  have hagain := chooseFor_again (m := q.opened t) hsource hfree hchosen
  have hother : choice.recipe.id ≠ slot.assignment.recipeId :=
    (chooseFor_mayTake hchosen).1.other
  have hopensAgain : q.Opens plan date course (some choice.recipe.id) slot context t :=
    ⟨hopens.found, fun hold => hother (Option.some.inj hold), hopens.fits, hopens.back,
      hopens.context⟩
  have hsame : q.replacement plan date course _ = q.replacement plan date course _ :=
    replacement_congr
      ((replaceChoice_eq_ok_iff.mpr ⟨t, m', hopensAgain, hagain, hlast⟩).trans hchoice.symm)
  rw [← (Choice.toAssignment_ok hassign).2.2.1] at hsame
  refine ⟨slot, new, Plan.findSlot_eq_ok_iff.mp hopens.found, hplan, ?_⟩
  exact congrArg (fun made => (⟨made.1, made.2.journal⟩ : Outcome Plan)) hsame

/-- Of eight main courses the last takes the place of the Tuesday's, and with it the only side dish,
which was paired on the Monday: its cycle begins anew, whoever chose the main course. -/
theorem same_of_replace_side :
    let paired (id : String) : Recipe := { Recipe.plain .main id with takesSide := true }
    let q := ofRecipes (paired "a" :: (["b", "c", "d", "e", "f", "g"].map (Recipe.plain .main)) ++
      [paired "h", .plain .side "s"])
    let tuesday := autumnDay 1
    ∃ plan plan', q.seed = none ∧ (q.generate none (some 1) (.ok autumnMonday)).result = .ok plan ∧
      (q.replace plan (.ok tuesday) (.ok .main) none).result = .ok plan' ∧
      resetsOf .main (q.replace plan (.ok tuesday) (.ok .main) none).journal = 0 ∧
      resetsOf .side (q.replace plan (.ok tuesday) (.ok .main) none).journal = 1 ∧
      ∃ slot new, plan.FirstSlot tuesday .main slot ∧
        plan' = plan.refill slot new plan'.rotation ∧
        q.replace plan (.ok tuesday) (.ok .main) (some new.recipeId) =
          q.replace plan (.ok tuesday) (.ok .main) none := by
  intro paired q tuesday
  have hrun : ((q.generate none (some 1) (.ok autumnMonday)).result.toOption.any fun plan =>
      (q.replace plan (.ok tuesday) (.ok .main) none).result.toOption.isSome = true ∧
        resetsOf .main (q.replace plan (.ok tuesday) (.ok .main) none).journal = 0 ∧
          resetsOf .side (q.replace plan (.ok tuesday) (.ok .main) none).journal = 1) = true := by
    decide +kernel
  obtain ⟨plan, hplan, hrun⟩ := (Option.any_eq_true _ _).mp hrun
  obtain ⟨hsome, hmains, hsides⟩ := of_decide_eq_true hrun
  obtain ⟨plan', hplan'⟩ := exists_of_isSome hsome
  exact ⟨plan, plan', rfl, eq_ok_of_toOption hplan, hplan', hmains, hsides,
    same_of_replace rfl hplan' hmains⟩

end Request

end MealRota
