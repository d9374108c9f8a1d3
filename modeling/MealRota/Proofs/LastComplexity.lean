import MealRota.Proofs.Balance
import MealRota.Proofs.SpacedSlots
import MealRota.Proofs.Undoing

/-!
# MealRota.Proofs.LastComplexity

What a plan says of its last assignment after it was edited.  The complexity in the
rotation state is that of the assignment with which the planner ended the last week,
when it planned this week for the last time.  Planning other weeks anew does not change
it, nor does refilling a slot, be it the last one of the plan.

* `Request.Ends` — the invariant, kept by weeks planned anew and by slots refilled;
* `Plan.plannedEnd` — the assignment that the state speaks of;
* `Request.lastComplexity_of_edits` — every plan that edits lead to.
-/

namespace MealRota

open Planning

/-! ## giving back -/

theorem Rotation.giveBack_lastComplexity (t : Rotation) (released : List String) (r : Recipe) :
    (t.giveBack released r).lastComplexity = t.lastComplexity := by
  unfold giveBack release discountServing
  grind

namespace Request

variable {g q : Request} {plan plan' : Plan} {planned : Option Assignment} {targets : List Nat}
  {p m m' : Progress}

/-- Giving assignments back leaves the complexity of the last one alone. -/
theorem lastComplexity_of_release {released : List String} {l : List Assignment} {s t : Rotation}
    (h : q.release released l s = .ok t) : t.lastComplexity = s.lastComplexity :=
  keeps_of_release (P := fun t => t.lastComplexity = s.lastComplexity)
    (fun t r ht => (t.giveBack_lastComplexity _ r).trans ht) h rfl

/-! ## the last assignment -/

/-- Where every week has an assignment, the last one of a plan is that of its last week. -/
theorem getLast?_assignments (hfilled : ∀ w ∈ plan.weeks, w.assignments ≠ []) :
    plan.assignments.getLast? = lastBefore plan.weeks plan.weeks.length := by
  rw [lastBefore_eq hfilled (Nat.le_refl _), List.take_length]
  rfl

/-- Planning weeks anew ends with the complexity of the assignment that ends the last of them. -/
theorem complexityOf_of_replanWeeks {draft draft' : Regeneration} {i : Nat}
    (hids : (q.recipes.map (·.id)).Nodup) (hlast : targets.getLast? = some i)
    (hi : i < draft.weeks.length)
    (h : run (targets.foldlM q.replanWeek draft) m = (.ok draft', m')) :
    ∃ w, draft'.weeks[i]? = some w ∧ ∃ x, q.complexityOf w.assignments.getLast? = .ok (some x) ∧
      m'.rotation.lastComplexity = some x := by
  obtain ⟨init, rfl⟩ := List.getLast?_eq_some_iff.mp hlast
  rw [List.foldlM_append] at h
  obtain ⟨next, m₁, hinit, h⟩ := run_bind_ok.mp h
  rw [List.foldlM_cons] at h
  obtain ⟨final, m₂, hweek, h⟩ := run_bind_ok.mp h
  obtain ⟨hdraft, rfl⟩ := Prod.mk.inj h
  rw [← Except.ok.inj hdraft]
  have hin : i < next.weeks.length := by rwa [(replanned_of_foldlM hinit).length]
  obtain ⟨y, looked, -, -, ⟨hnone, -, -⟩ | ⟨old, w, -, hset, -, -, hplans⟩⟩ :=
    replanWeek_steps hweek
  · rw [List.getElem?_eq_getElem hin] at hnone
    contradiction
  · refine ⟨w, ?_, complexityOf_of_accounted hids hplans.accounted.2 hplans.accounted.1⟩
    rw [hset]
    exact List.getElem?_set_self hin

/-! ## the invariant -/

/-- A plan ends with an assignment, and its rotation state says how complex a certain assignment is:
the one with which the planner ended the last week. -/
structure Ends (q : Request) (plan : Plan) (planned : Option Assignment) : Prop where
  weeks : plan.weeks ≠ []
  filled : ∀ w ∈ plan.weeks, w.assignments ≠ []
  planned : ∃ x, q.complexityOf planned = .ok (some x) ∧ plan.rotation.lastComplexity = some x
  last : ∃ y, q.complexityOf plan.assignments.getLast? = .ok (some y)

/-- Weeks planned anew have assignments, as the others do. -/
theorem filled_of_regeneration (hfilled : ∀ w ∈ plan.weeks, w.assignments ≠ [])
    (h : q.regeneration plan targets = (.ok plan', p)) :
    ∀ w ∈ plan'.weeks, w.assignments ≠ [] :=
  (replanned_of_regeneration h).forall_mem (fun _ _ _ _ hplans => hplans.accounted.1) hfilled

namespace Ends

/-- Only the recipes and the formula of a request matter. -/
theorem congr (h : g.Ends plan planned) (hrecipes : q.recipes = g.recipes)
    (hformula : q.rules.formula = g.rules.formula) : q.Ends plan planned := by
  have hsame : q.complexityOf = g.complexityOf := by
    funext a
    unfold complexityOf
    rw [hrecipes, hformula]
  obtain ⟨hweeks, hfilled, hplanned, hlast⟩ := h
  exact ⟨hweeks, hfilled, hsame ▸ hplanned, hsame ▸ hlast⟩

theorem of_generate {given : Option Rotation} {weekCount : Option Int}
    {start : Except PlanError Date} (hids : (q.recipes.map (·.id)).Nodup)
    (h : (q.generate given weekCount start).result = .ok plan) :
    q.Ends plan plan.assignments.getLast? := by
  obtain ⟨m, m', -, -, hweeks, hturn, hrotation⟩ := weeks_of_generate h
  have hfilled := filled_of_generate h
  have hne : plan.assignments ≠ [] := by
    obtain ⟨w, hw⟩ := List.exists_mem_of_ne_nil _ hweeks
    obtain ⟨a, ha⟩ := List.exists_mem_of_ne_nil _ (hfilled w hw)
    exact List.ne_nil_of_mem (List.mem_flatMap.mpr ⟨w, hw, ha⟩)
  obtain ⟨x, hx, hlast⟩ := complexityOf_of_accounted hids hturn.accounted hne
  exact ⟨hweeks, hfilled, ⟨x, hx, hrotation ▸ hlast⟩, ⟨x, hx⟩⟩

/-- When the last week is planned anew, the state speaks of the assignment that now ends it. -/
theorem regeneration_end (h : q.Ends plan planned) (hids : (q.recipes.map (·.id)).Nodup)
    (hend : targets.getLast? = some (plan.weeks.length - 1))
    (hrun : q.regeneration plan targets = (.ok plan', p)) :
    q.Ends plan' plan'.assignments.getLast? := by
  have hpos : 0 < plan.weeks.length := List.length_pos_iff.mpr h.weeks
  have hlength := (replanned_of_regeneration hrun).length
  have hfilled := filled_of_regeneration h.filled hrun
  obtain ⟨t, m, -, -, -, hsteps⟩ := replanFrom_of_regeneration hrun
  obtain ⟨draft, m', hdraft, hweeks, hrotation⟩ := replanFrom_steps hsteps
  obtain ⟨w, hw, x, hx, hcomplexity⟩ :=
    complexityOf_of_replanWeeks hids hend (Nat.sub_lt hpos Nat.one_pos) hdraft
  have hlast : plan'.assignments.getLast? = w.assignments.getLast? := by
    rw [getLast?_assignments hfilled, lastBefore, hlength, if_neg (Nat.ne_of_gt hpos), hweeks, hw]
    rfl
  rw [← hlast] at hx
  refine ⟨List.length_pos_iff.mp (hlength ▸ hpos), hfilled, ⟨x, hx, ?_⟩, ⟨x, hx⟩⟩
  rw [hrotation, if_neg (not_not_intro hend), hcomplexity]

/-- When other weeks than the last are planned anew, the end of the plan stays as it is. -/
theorem regeneration_before (h : q.Ends plan planned) (hout : plan.weeks.length - 1 ∉ targets)
    (hrun : q.regeneration plan targets = (.ok plan', p)) : q.Ends plan' planned := by
  have hpos : 0 < plan.weeks.length := List.length_pos_iff.mpr h.weeks
  have hreplanned := replanned_of_regeneration hrun
  have hlength := hreplanned.length
  have hfilled := filled_of_regeneration h.filled hrun
  obtain ⟨t, m, hback, -, -, hsteps⟩ := replanFrom_of_regeneration hrun
  obtain ⟨draft, m', -, -, hrotation⟩ := replanFrom_steps hsteps
  have hlast : plan'.assignments.getLast? = plan.assignments.getLast? := by
    rw [getLast?_assignments hfilled, getLast?_assignments h.filled, lastBefore, lastBefore,
      hlength, hreplanned.untouched _ hout]
  have hkept : plan'.rotation.lastComplexity = plan.rotation.lastComplexity := by
    rw [hrotation, if_pos fun hend => hout (List.mem_of_getLast? hend)]
    show t.lastComplexity = plan.rotation.lastComplexity
    exact lastComplexity_of_release hback
  refine ⟨List.length_pos_iff.mp (hlength ▸ hpos), hfilled, ?_, ?_⟩
  · rw [hkept]
    exact h.planned
  · rw [hlast]
    exact h.last

/-- When a slot is refilled, the state says what it said before, whatever slot it is. -/
theorem replacement {date : Date} {course : Course} {newId : Option String}
    (h : q.Ends plan planned) (hids : (q.recipes.map (·.id)).Nodup)
    (hrun : q.replacement plan date course newId = (.ok plan', p)) : q.Ends plan' planned := by
  obtain ⟨slot, a, t, m, m', hslot, hplan, hback, -, haccounted, hrotation⟩ :=
    replacement_accounted hrun
  have hkept : plan'.rotation.lastComplexity = plan.rotation.lastComplexity := by
    rw [hrotation]
    show t.lastComplexity = plan.rotation.lastComplexity
    exact lastComplexity_of_release hback
  have hnew : plan'.assignments = plan.before slot ++ a :: plan.after slot := by
    rw [hplan, hslot.assignments_refill]
  refine ⟨?_, ?_, ?_, ?_⟩
  · rw [hplan]
    simpa [Plan.refill] using h.weeks
  · rw [hplan]
    intro w hw
    cases List.mem_or_eq_of_mem_set hw with
    | inl hw => exact h.filled w hw
    | inr hw =>
        rw [hw]
        simpa using h.filled slot.week (List.mem_of_getElem? hslot.week)
  · rw [hkept]
    exact h.planned
  · -- what comes after the slot ends the plan, unless the slot itself does
    rw [hnew, List.getLast?_append_of_ne_nil _ (List.cons_ne_nil _ _)]
    have hlast := h.last
    rw [hslot.assignments_eq, List.getLast?_append_of_ne_nil _ (List.cons_ne_nil _ _)] at hlast
    cases hafter : plan.after slot with
    | nil =>
        obtain ⟨x, hx, -⟩ := complexityOf_of_accounted hids haccounted (List.cons_ne_nil _ _)
        exact ⟨x, hx⟩
    | cons b l =>
        rw [hafter, List.getLast?_cons_cons] at hlast
        rwa [List.getLast?_cons_cons]

end Ends

end Request

/-! ## edits -/

/-- Whether an edit plans the last week of a plan anew. -/
def Edit.replansEnd (plan : Plan) : Edit → Bool
  | .week index => index.toNat + 1 = plan.weeks.length
  | .weeksFrom _ => true
  | .meal _ _ _ => false

/-- The last assignment of a plan as the planner of weeks left it, when it planned the last week for
the last time: this is `planned` if none of the edits planned it anew. -/
def Plan.plannedEnd (plan : Plan) (planned : Option Assignment) :
    List (Request × Edit) → Option Assignment
  | [] => planned
  | (q, e) :: edits =>
    match (q.edit plan e).result with
    | .error _ => planned
    | .ok next =>
      next.plannedEnd (if e.replansEnd plan then next.assignments.getLast? else planned) edits

namespace Request

variable {g q : Request} {plan plan' : Plan} {planned : Option Assignment}

/-- An edit leaves the end of the plan to what the planner made of the last week. -/
theorem Ends.edit {e : Edit} (h : q.Ends plan planned) (hids : (q.recipes.map (·.id)).Nodup)
    (hedit : (q.edit plan e).result = .ok plan') :
    q.Ends plan' (if e.replansEnd plan then plan'.assignments.getLast? else planned) := by
  cases e with
  | week index =>
      obtain ⟨hindex, hrun, -⟩ := regenerate_ok hedit
      by_cases hend : index.toNat + 1 = plan.weeks.length
      · rw [if_pos (by simpa [Edit.replansEnd] using hend)]
        refine h.regeneration_end hids ?_ hrun
        rw [List.getLast?_singleton, ← hend, Nat.add_sub_cancel]
      · rw [if_neg (by simpa [Edit.replansEnd] using hend)]
        refine h.regeneration_before ?_ hrun
        rw [List.mem_singleton]
        omega
  | weeksFrom index =>
      obtain ⟨hindex, hrun, -⟩ := regenerate_ok hedit
      refine h.regeneration_end hids ?_ hrun
      have hin : index.toNat < plan.weeks.length := by omega
      rw [List.getLast?_drop, if_neg (by rw [List.length_range]; omega), List.getLast?_range,
        if_neg (by omega)]
  | meal date course newId => exact h.replacement hids (Prod.ext hedit rfl)

theorem Ends.editedBy {edits : List (Request × Edit)} (hids : (g.recipes.map (·.id)).Nodup)
    (h : g.Ends plan planned)
    (hsame : ∀ e ∈ edits, e.1.recipes = g.recipes ∧ e.1.rules.formula = g.rules.formula)
    (hedits : plan.editedBy edits = .ok plan') : g.Ends plan' (plan.plannedEnd planned edits) := by
  induction edits generalizing plan planned with
  | nil =>
      rw [← Except.ok.inj hedits]
      exact h
  | cons first edits ih =>
      obtain ⟨q, e⟩ := first
      obtain ⟨hrecipes, hformula⟩ := hsame (q, e) List.mem_cons_self
      unfold Plan.editedBy at hedits
      rw [List.foldlM_cons] at hedits
      unfold Plan.plannedEnd
      cases hedit : (q.edit plan e).result with
      | error failure =>
          rw [hedit] at hedits
          contradiction
      | ok next =>
          rw [hedit] at hedits
          have hnext := (h.congr hrecipes hformula).edit (hrecipes ▸ hids) hedit
          exact ih (hnext.congr hrecipes.symm hformula.symm)
            (fun e' he' => hsame e' (List.mem_cons_of_mem _ he')) hedits

/-- After any edits of a generated plan, with the same recipes, of which no two share an id, and the
same formula, the rotation state says how complex the assignment is with which the planner ended the
last week when it planned this week for the last time.  That is the complexity of the plan's last
assignment if and only if the two are equally complex. -/
theorem lastComplexity_of_edits {given : Option Rotation} {weekCount : Option Int}
    {start : Except PlanError Date} {first : Plan} {edits : List (Request × Edit)}
    (hids : (g.recipes.map (·.id)).Nodup)
    (hfirst : (g.generate given weekCount start).result = .ok first)
    (hsame : ∀ e ∈ edits, e.1.recipes = g.recipes ∧ e.1.rules.formula = g.rules.formula)
    (hedits : first.editedBy edits = .ok plan) :
    ∃ x y, plan.rotation.lastComplexity = some x ∧
      g.complexityOf (first.plannedEnd first.assignments.getLast? edits) = .ok (some x) ∧
      g.complexityOf plan.assignments.getLast? = .ok (some y) ∧
      (g.complexityOf plan.assignments.getLast? = .ok plan.rotation.lastComplexity ↔ x = y) := by
  obtain ⟨-, -, ⟨x, hx, hrotation⟩, ⟨y, hy⟩⟩ :=
    (Ends.of_generate hids hfirst).editedBy hids hsame hedits
  refine ⟨x, y, hrotation, hx, hy, ?_⟩
  rw [hy, hrotation, Except.ok.injEq, Option.some.injEq]
  exact eq_comm

/-- A week that ends with a complex main course, which is replaced by a plain one.  Once the week is
planned anew, by a cook who looks at time only, it ends with the complex one again, and so the state
is right. -/
theorem lastComplexity_of_edits_sunday :
    let g := mainsOf ["a", "b", "c", "d", "e", "f", "h"] ["g"]
    let hasty : Request := { g with rules := ⟨.standard, { varietyWeight := 0 }⟩ }
    let edits : List (Request × Edit) := [(g, .meal (autumnDay 6) .main none), (hasty, .week 0)]
    (g.recipes.map (·.id)).Nodup ∧
      (∀ e ∈ edits, e.1.recipes = g.recipes ∧ e.1.rules.formula = g.rules.formula) ∧
      ∃ first plan, (g.generate none (some 1) (.ok autumnMonday)).result = .ok first ∧
        first.editedBy edits = .ok plan ∧
        g.complexityOf plan.assignments.getLast? = .ok plan.rotation.lastComplexity ∧
        plan.rotation.lastComplexity = some 100 := by
  intro g hasty edits
  have hids : (g.recipes.map (·.id)).Nodup := by decide +kernel
  have hsame : ∀ e ∈ edits, e.1.recipes = g.recipes ∧ e.1.rules.formula = g.rules.formula := by
    intro e he
    simp only [edits, List.mem_cons, List.not_mem_nil, or_false] at he
    rcases he with rfl | rfl <;> exact ⟨rfl, rfl⟩
  have hrun : ((g.generate none (some 1) (.ok autumnMonday)).result.toOption.any fun first =>
      (first.editedBy edits).toOption.any fun plan =>
        first.plannedEnd first.assignments.getLast? edits = plan.assignments.getLast? ∧
          plan.rotation.lastComplexity = some 100) = true := by
    decide +kernel
  obtain ⟨first, hfirst, hrun⟩ := (Option.any_eq_true _ _).mp hrun
  obtain ⟨plan, hplan, hends⟩ := (Option.any_eq_true _ _).mp hrun
  obtain ⟨hends, hscore⟩ := of_decide_eq_true hends
  have hok := eq_ok_of_toOption hfirst
  have hok' := eq_ok_of_toOption hplan
  obtain ⟨x, y, -, hx, hy, hlast⟩ := lastComplexity_of_edits hids hok hsame hok'
  rw [hends, hy] at hx
  exact ⟨hids, hsame, first, plan, hok, hok',
    hlast.mpr (Option.some.inj (Except.ok.inj hx)).symm, hscore⟩

/-- A week of plain main courses takes a complex one on its Sunday.  The state still says that the
last assignment is plain. -/
theorem lastComplexity_of_refilled_end :
    let g := mainsOf ["a", "b", "c", "d", "e", "f", "g"] ["h"]
    (g.recipes.map (·.id)).Nodup ∧
      ∃ first plan, (g.generate none (some 1) (.ok autumnMonday)).result = .ok first ∧
        first.editedBy [(g, .meal (autumnDay 6) .main none)] = .ok plan ∧
        g.complexityOf plan.assignments.getLast? = .ok (some 100) ∧
        plan.rotation.lastComplexity = some 0 ∧
        g.complexityOf plan.assignments.getLast? ≠ .ok plan.rotation.lastComplexity := by
  intro g
  have hids : (g.recipes.map (·.id)).Nodup := by decide +kernel
  have hrun : ((g.generate none (some 1) (.ok autumnMonday)).result.toOption.any fun first =>
      (first.editedBy [(g, .meal (autumnDay 6) .main none)]).toOption.any fun plan =>
        (g.complexityOf plan.assignments.getLast?).toOption = some (some 100) ∧
          plan.rotation.lastComplexity = some 0) = true := by
    decide +kernel
  obtain ⟨first, hfirst, hrun⟩ := (Option.any_eq_true _ _).mp hrun
  obtain ⟨plan, hplan, hscores⟩ := (Option.any_eq_true _ _).mp hrun
  obtain ⟨hcomplex, hplain⟩ := of_decide_eq_true hscores
  have hcomplex := eq_ok_of_toOption hcomplex
  refine ⟨hids, first, plan, eq_ok_of_toOption hfirst, eq_ok_of_toOption hplan, hcomplex, hplain,
    ?_⟩
  rw [hcomplex, hplain]
  exact fun hsame => absurd (Except.ok.inj hsame) (by decide)

end Request

end MealRota
