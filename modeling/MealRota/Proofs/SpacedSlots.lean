import MealRota.Proofs.Refilling
import MealRota.Proofs.SpacedPlans

/-!
# MealRota.Proofs.SpacedSlots

Complex recipes in plans of which one slot is refilled.  A refilled slot has two
neighbours, the assignment before it and the one after it.  The planner compares the
best alternative with the former, as long as it stands in the same week, and with the
latter not at all.

* `Request.apart_of_replacement` — the neighbour that the planner looks at;
* `Request.spaced_iff_of_replace` — the other two, for every plan and every slot.
-/

namespace MealRota

open Planning

namespace Request

variable {q : Request} {plan plan' : Plan} {date : Date} {course : Course}

/-- Changing one place of a spaced list, only what is next to it can come to stand beside a complex
recipe. -/
theorem Spaced.spaced_iff_between {l m : List Assignment} {old : Assignment}
    (hs : q.Spaced (l ++ old :: m)) (new : Assignment) :
    q.Spaced (l ++ new :: m) ↔ (q.servesComplex new = true →
      (∀ b ∈ m.head?, q.servesComplex b = false) ∧
        ∀ b ∈ l.getLast?, q.servesComplex b = false) := by
  unfold Spaced at hs ⊢
  rw [List.isChain_append, List.isChain_cons] at hs ⊢
  obtain ⟨hl, ⟨-, hm⟩, -⟩ := hs
  simp only [hl, hm, true_and, and_true, List.head?_cons, Option.mem_def, Option.some.injEq]
  grind

section

variable (hids : (q.recipes.map (·.id)).Nodup)
  (havoid : q.rules.preferences.avoidConsecutiveComplex = true)

include hids havoid

/-- The best alternative for a slot is not complex where the assignment before it in its week is. -/
theorem apart_of_replacement {p : Progress}
    (h : q.replacement plan date course none = (.ok plan', p)) :
    ∃ slot a, plan.findSlot date course = .ok slot ∧ plan.HasSlot slot ∧
      plan' = plan.refill slot a plan'.rotation ∧
      ∀ b ∈ slot.preceding, ¬ (q.servesComplex b = true ∧ q.servesComplex a = true) := by
  obtain ⟨slot, context, choice, a, m, hchoice, hassign, hplan, -⟩ := replacement_steps h
  obtain ⟨hfound, -, hcontext, t, excluded, m₁, m₂, -, -, hchosen, -⟩ := replaceChoice_steps hchoice
  obtain ⟨-, -, hrecipe, -⟩ := Choice.toAssignment_ok hassign
  obtain ⟨hday, hweekend⟩ := contextOf_ok hcontext
  have hselects := bestAlternative_ok hchosen
  obtain ⟨-, hmem, x, hx, -⟩ := hselects.serves
  have hcomplex : q.servesComplex a = isComplex (some x) :=
    servesComplex_of_mem_pool hids (hmem _ List.mem_cons_self) hrecipe hx
  have hdated : context.weekend = context.date.isWeekend := by rw [hweekend, hday]
  have hrow : ¬ (isComplex (some x) = true ∧ isComplex context.preceding = true) :=
    (Scorer.allow_of_passes hselects.of_some.2.1 hdated).2 havoid x hx
  refine ⟨slot, a, hfound, (findSlot_ok hfound).1, hplan, fun b hb hboth => hrow ?_⟩
  rw [isComplex_of_complexityOf (complexityOf_preceding hcontext), Option.mem_def.mp hb, ← hcomplex]
  exact hboth.symm

/-- Replacing an assignment of a plan in which no complex recipe follows another one by the best
alternative changes this assignment alone.  It keeps complex recipes apart if and only if the
alternative is not complex, or neither the assignment after the slot is nor, where the slot is the
first of its week, the one before it. -/
theorem spaced_iff_of_replace (hs : q.Spaced plan.assignments)
    (h : (q.replace plan (.ok date) (.ok course) none).result = .ok plan') :
    ∃ slot a, plan.findSlot date course = .ok slot ∧
      plan.assignments = plan.before slot ++ slot.assignment :: plan.after slot ∧
      plan'.assignments = plan.before slot ++ a :: plan.after slot ∧
      (q.Spaced plan'.assignments ↔ (q.servesComplex a = true →
        (∀ b ∈ (plan.after slot).head?, q.servesComplex b = false) ∧
          (slot.position = 0 → ∀ b ∈ (plan.before slot).getLast?, q.servesComplex b = false))) := by
  have hrun : q.replacement plan date course none =
      (.ok plan', (q.replacement plan date course none).2) := Prod.ext h rfl
  obtain ⟨slot, a, hfound, hslot, hplan, hapart⟩ := apart_of_replacement hids havoid hrun
  have hnew : plan'.assignments = plan.before slot ++ a :: plan.after slot := by
    rw [hplan, hslot.assignments_refill]
  rw [hslot.assignments_eq] at hs
  refine ⟨slot, a, hfound, hslot.assignments_eq, hnew, ?_⟩
  rw [hnew, hs.spaced_iff_between a]
  refine forall_congr' fun hcomplex => and_congr_right fun _ => ?_
  refine ⟨fun hbefore _ => hbefore, fun hfirst b hb => ?_⟩
  by_cases hplace : slot.position = 0
  · exact hfirst hplace b hb
  · rw [hslot.getLast?_before hplace] at hb
    exact Bool.eq_false_iff.mpr fun hcomplex' => hapart b hb ⟨hcomplex', hcomplex⟩

end

/-- Main courses, of which some are complex and the others plain. -/
def mainsOf (plain complex : List String) : Request :=
  ofRecipes (plain.map (Recipe.plain .main) ++
    complex.map fun id => { Recipe.plain .main id with complexity := some 100 })

/-- A week of plain main courses takes a complex one on its Tuesday: neither neighbour is
complex. -/
theorem spaced_iff_of_replace_tuesday :
    let q := mainsOf ["a", "b", "c", "d", "e", "f", "g"] ["h"]
    (q.recipes.map (·.id)).Nodup ∧ q.rules.preferences.avoidConsecutiveComplex = true ∧
      ∃ plan plan',
        (q.generate none (some 1) (.ok autumnMonday)).result = .ok plan ∧
        q.Spaced plan.assignments ∧
        (q.replace plan (.ok (autumnDay 1)) (.ok .main) none).result = .ok plan' ∧
        q.Spaced plan'.assignments ∧
        plan'.assignments.map (·.recipeId) = ["a", "h", "c", "d", "e", "f", "g"] := by
  intro q
  have hids : (q.recipes.map (·.id)).Nodup := by decide +kernel
  have hrun : ((q.generate none (some 1) (.ok autumnMonday)).result.toOption.any
      fun plan => (q.replace plan (.ok (autumnDay 1)) (.ok .main) none).result.toOption.any
        fun plan' =>
          (plan.findSlot (autumnDay 1) .main).toOption.any (fun slot =>
            ((plan.after slot).head?.all (!q.servesComplex ·)) && slot.position != 0) &&
          decide (plan'.assignments.map (·.recipeId) = ["a", "h", "c", "d", "e", "f", "g"])) =
        true := by
    decide +kernel
  obtain ⟨plan, hplan, hrun⟩ := (Option.any_eq_true _ _).mp hrun
  obtain ⟨plan', hplan', hrun⟩ := (Option.any_eq_true _ _).mp hrun
  obtain ⟨hslot, hshown⟩ := Bool.and_eq_true_iff.mp hrun
  obtain ⟨slot, hfound, hslot⟩ := (Option.any_eq_true _ _).mp hslot
  obtain ⟨hafter, hplace⟩ := Bool.and_eq_true_iff.mp hslot
  have hok := eq_ok_of_toOption hplan
  have hok' := eq_ok_of_toOption hplan'
  have hs : q.Spaced plan.assignments := (spacedAfter_of_generate hids rfl hok).spaced
  obtain ⟨slot', a, hfound', -, -, hspaced⟩ := spaced_iff_of_replace hids rfl hs hok'
  obtain rfl : slot = slot' :=
    Except.ok.inj ((eq_ok_of_toOption hfound).symm.trans hfound')
  refine ⟨hids, rfl, plan, plan', hok, hs, hok', hspaced.mpr fun _ => ⟨fun b hb => ?_, ?_⟩,
    of_decide_eq_true hshown⟩
  · rw [Option.mem_def.mp hb] at hafter
    simpa using hafter
  · exact fun hfirst => absurd hfirst (by simpa using hplace)

section

variable (hids : (q.recipes.map (·.id)).Nodup)
  (havoid : q.rules.preferences.avoidConsecutiveComplex = true)

include hids havoid

/-- What is planned keeps complex recipes apart; a run shows that a replacement does not. -/
theorem exists_not_spaced {weekCount : Int}
    (hrun : ((q.generate none (some weekCount) (.ok autumnMonday)).result.toOption.any
      fun plan => (q.replace plan (.ok date) (.ok course) none).result.toOption.any
        fun plan' => ¬ q.Spaced plan'.assignments) = true) :
    ∃ plan plan', (q.generate none (some weekCount) (.ok autumnMonday)).result = .ok plan ∧
      q.Spaced plan.assignments ∧
      (q.replace plan (.ok date) (.ok course) none).result = .ok plan' ∧
      ¬ q.Spaced plan'.assignments := by
  obtain ⟨plan, hplan, hrun⟩ := (Option.any_eq_true _ _).mp hrun
  obtain ⟨plan', hplan', hmeet⟩ := (Option.any_eq_true _ _).mp hrun
  have hok := eq_ok_of_toOption hplan
  exact ⟨plan, plan', hok, (spacedAfter_of_generate hids havoid hok).spaced,
    eq_ok_of_toOption hplan', of_decide_eq_true hmeet⟩

end

/-- The planner looks at neither of two neighbours.  The complex alternative on a Tuesday stands
before the complex main course of the Wednesday; the one on the first day of the second week follows
the complex main course of the Sunday before. -/
theorem complex_beside_complex :
    (let q := mainsOf ["a", "b", "d", "e", "f", "g", "i"] ["c", "h"];
      (q.recipes.map (·.id)).Nodup ∧ q.rules.preferences.avoidConsecutiveComplex = true ∧
      ∃ plan plan',
        (q.generate none (some 1) (.ok autumnMonday)).result = .ok plan ∧
        q.Spaced plan.assignments ∧
        (q.replace plan (.ok (autumnDay 1)) (.ok .main) none).result = .ok plan' ∧
        ¬ q.Spaced plan'.assignments) ∧
    let q := mainsOf ["a", "b", "c", "d", "e", "f", "h", "i", "j", "k", "l", "m", "n", "p"]
      ["g", "o"];
    (q.recipes.map (·.id)).Nodup ∧ q.rules.preferences.avoidConsecutiveComplex = true ∧
      ∃ plan plan',
        (q.generate none (some 2) (.ok autumnMonday)).result = .ok plan ∧
        q.Spaced plan.assignments ∧
        (q.replace plan (.ok (autumnDay 7)) (.ok .main) none).result = .ok plan' ∧
        ¬ q.Spaced plan'.assignments := by
  constructor
  · intro q
    have hids : (q.recipes.map (·.id)).Nodup := by decide +kernel
    exact ⟨hids, rfl, exists_not_spaced hids rfl (by decide +kernel)⟩
  · intro q
    have hids : (q.recipes.map (·.id)).Nodup := by decide +kernel
    exact ⟨hids, rfl, exists_not_spaced hids rfl (by decide +kernel)⟩

end Request

end MealRota
