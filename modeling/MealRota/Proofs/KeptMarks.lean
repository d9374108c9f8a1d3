import MealRota.Proofs.Balance
import MealRota.Proofs.SlotResets

/-!
# MealRota.Proofs.KeptMarks

Which marks of the current cycle are lost when slots of a generated plan are given back, although
other slots hold the recipes.  A recipe may stand in a plan twice, once from an earlier cycle and
once from the current one, and a side dish twice within one cycle.  Only for main courses does
giving back tell one from the other, and then by their weeks.

* `Plan.holdings`, `Plan.currentHoldings` — what the slots of a plan hold, and which of it was
  taken since the last reset;
* `Request.exists_release` — giving back succeeds;
* `Request.kept_marks_of_generate` — which marks are kept.
-/

namespace MealRota

/-! ## what the slots of a plan hold -/

namespace Plan

/-- What the slots of a plan hold for a course, in order: the ids with the indices of the week and
of the slot in the week. -/
def holdings (plan : Plan) (c : Course) : List (String × Nat × Nat) :=
  plan.weeks.zipIdx.flatMap fun w => w.1.assignments.zipIdx.flatMap fun a =>
    (a.1.takings.filter fun x => x.1 = c).map fun x => (x.2, w.2, a.2)

/-- What the slots of a plan took for a course since the last reset, given the journal of the run
that filled all slots in their order. -/
def currentHoldings (plan : Plan) (c : Course) (journal : List Event) :
    List (String × Nat × Nat) :=
  (plan.holdings c).drop ((plan.holdings c).length - (lastCycleOf c journal).length)

/-- Going through a list with its indices is going through the list. -/
theorem flatMap_zipIdx {α β : Type} (l : List α) (f : α → List β) :
    (l.zipIdx.flatMap fun x => f x.1) = l.flatMap f := by
  conv_rhs => rw [← List.zipIdx_map_fst 0 l, List.flatMap_map]

variable {plan : Plan} {c : Course} {id : String} {i j : Nat} {journal : List Event}

theorem mem_holdings : (id, i, j) ∈ plan.holdings c ↔ ∃ w a, plan.weeks[i]? = some w ∧
    w.assignments[j]? = some a ∧ (c, id) ∈ a.takings := by
  unfold holdings
  constructor
  · intro h
    obtain ⟨⟨w, i'⟩, hw, h⟩ := List.mem_flatMap.mp h
    obtain ⟨⟨a, j'⟩, ha, h⟩ := List.mem_flatMap.mp h
    obtain ⟨⟨d, id'⟩, hx, h⟩ := List.mem_map.mp h
    obtain ⟨hin, hd⟩ := List.mem_filter.mp hx
    have hd : d = c := of_decide_eq_true hd
    simp only [Prod.mk.injEq] at h
    obtain ⟨rfl, rfl, rfl⟩ := h
    subst hd
    exact ⟨w, a, List.mem_zipIdx_iff_getElem?.mp hw, List.mem_zipIdx_iff_getElem?.mp ha, hin⟩
  · rintro ⟨w, a, hw, ha, hx⟩
    refine List.mem_flatMap.mpr ⟨(w, i), List.mem_zipIdx_iff_getElem?.mpr hw, ?_⟩
    refine List.mem_flatMap.mpr ⟨(a, j), List.mem_zipIdx_iff_getElem?.mpr ha, ?_⟩
    exact List.mem_map.mpr ⟨(c, id), List.mem_filter.mpr ⟨hx, decide_eq_true rfl⟩, rfl⟩

/-- Places left out, the slots hold what was taken for them. -/
theorem map_fst_holdings (h : takings journal = plan.weeks.flatMap Week.takings) :
    (plan.holdings c).map (·.1) = takenOf c journal := by
  have hweek : ∀ w : Week × Nat, (w.1.assignments.zipIdx.flatMap fun a =>
      (a.1.takings.filter fun x => x.1 = c).map (·.2)) =
      (w.1.takings.filter fun x => x.1 = c).map (·.2) := by
    intro w
    rw [flatMap_zipIdx w.1.assignments fun a => (a.takings.filter fun x => x.1 = c).map (·.2),
      Week.takings, List.filter_flatMap, List.map_flatMap]
  unfold takenOf holdings
  simp only [List.map_flatMap, List.map_map, Function.comp_def, hweek]
  rw [flatMap_zipIdx plan.weeks fun w => (w.takings.filter fun x => x.1 = c).map (·.2), h,
    List.filter_flatMap, List.map_flatMap]

theorem map_fst_currentHoldings (h : takings journal = plan.weeks.flatMap Week.takings) :
    (plan.currentHoldings c journal).map (·.1) = lastCycleOf c journal := by
  obtain ⟨front, hfront⟩ := lastCycleOf_suffix c journal
  have hlength : (plan.holdings c).length = front.length + (lastCycleOf c journal).length := by
    rw [← List.length_map (·.1), map_fst_holdings h, ← hfront, List.length_append]
  rw [currentHoldings, List.map_drop, map_fst_holdings h, hlength, Nat.add_sub_cancel]
  nth_rewrite 1 [← hfront]
  exact List.drop_left

/-- Of the main courses, the weeks are those of the main course slots. -/
theorem map_holdings_main (plan : Plan) :
    ((plan.holdings .main).map fun x => (x.1, x.2.1)) = plan.mainSlots := by
  unfold holdings mainSlots
  simp only [List.map_flatMap, List.map_map, Function.comp_def]
  refine List.flatMap_congr fun w _ => ?_
  rw [flatMap_zipIdx w.1.assignments fun a =>
    (a.takings.filter fun x => x.1 = .main).map fun x => (x.2, w.2)]
  have hids : w.1.mainIds = ((w.1.assignments.flatMap Assignment.takings).filter
      fun x => x.1 = .main).map (·.2) := (takings_of_course (by decide) w.1.assignments).symm
  rw [hids, List.map_map, List.filter_flatMap, List.map_flatMap]
  rfl

theorem map_currentHoldings_main (plan : Plan) (journal : List Event) :
    ((plan.currentHoldings .main journal).map fun x => (x.1, x.2.1)) =
      plan.currentSlots journal := by
  have hlength : plan.mainSlots.length = (plan.holdings .main).length := by
    rw [← map_holdings_main, List.length_map]
  rw [currentHoldings, currentSlots, List.map_drop, map_holdings_main, hlength]

end Plan

/-! ## giving back -/

namespace Request

variable {q q' : Request} {given : Option Rotation} {weekCount : Option Int}
  {start : Except PlanError Date} {plan : Plan} {c : Course} {id : String} {i j : Nat}
  {targets : List Nat} {slot : FilledSlot} {t : Rotation}

/-- Assignments of recipes that are known can be given back. -/
theorem exists_release {assignments : List Assignment}
    (h : ∀ id ∈ assignments.flatMap (·.ids), ∃ r, findLast? q.recipes id = some r)
    (released : List String) (s : Rotation) :
    ∃ t, q.release released assignments s = .ok t := by
  unfold release
  generalize assignments.flatMap (·.ids) = ids at h
  induction ids generalizing s with
  | nil => exact ⟨s, rfl⟩
  | cons id ids ih =>
      obtain ⟨r, hr⟩ := h id List.mem_cons_self
      have hback : q.giveBackId released s id = .ok (s.giveBack released r) := by
        unfold giveBackId
        rw [hr]
      rw [List.foldlM_cons, hback]
      exact ih _ fun id hid => h id (List.mem_cons_of_mem _ hid)

theorem mem_of_mem_assignmentsOf {a : Assignment} (h : a ∈ assignmentsOf plan targets) :
    a ∈ plan.assignments := by
  obtain ⟨i, -, ha⟩ := List.mem_flatMap.mp h
  cases hw : plan.weeks[i]? with
  | none =>
      rw [hw] at ha
      exact absurd ha List.not_mem_nil
  | some w =>
      rw [hw] at ha
      exact List.mem_flatMap.mpr ⟨w, List.mem_of_getElem? hw, ha⟩

section

variable (hids : (q.recipes.map (·.id)).Nodup)
  (h : (q.generate given weekCount start).result = .ok plan)

include hids h

/-- The recipes of a generated plan are known. -/
theorem named_of_generate :
    ∀ id ∈ plan.assignments.flatMap (·.ids), ∃ r, findLast? q.recipes id = some r := by
  obtain ⟨m, m', -, -, -, hturn, -⟩ := weeks_of_generate h
  exact hturn.accounted.named hids

/-- What was taken since the last reset keeps its mark unless its recipe is given back, and released
if it is a main course. -/
theorem isUsed_of_currentHoldings (hrecipes : q'.recipes = q.recipes) {released : List String}
    {assignments : List Assignment}
    (hback : q'.release released assignments plan.rotation = .ok t)
    (hheld : (id, i, j) ∈ plan.currentHoldings c (q.generate given weekCount start).journal) :
    t.isUsed c id = true ↔
      id ∉ assignments.flatMap (·.ids) ∨ (c = .main ∧ id ∉ released) := by
  have hlast : id ∈ lastCycleOf c (q.generate given weekCount start).journal := by
    rw [← Plan.map_fst_currentHoldings (generate_ok h).2.2.takings]
    exact List.mem_map_of_mem hheld
  have hused : plan.rotation.isUsed c id = true := (isUsed_of_generate h c id).mpr (Or.inl hlast)
  obtain ⟨-, hnamed⟩ := named_of_takings hids h (mem_takings_of_mem_lastCycle hlast)
  rw [isUsed_of_giveBackIds hback, hrecipes, and_iff_right hused, and_iff_left hnamed, not_and_or]
  exact or_congr_right Classical.not_imp

/-- Assignments of a generated plan can be given back, which keeps the marks as told. -/
theorem exists_release_of_generate (hrecipes : q'.recipes = q.recipes) (released : List String)
    {assignments : List Assignment} (hfrom : ∀ a ∈ assignments, a ∈ plan.assignments) :
    ∃ t, q'.release released assignments plan.rotation = .ok t ∧
      ∀ c id i j,
        (id, i, j) ∈ plan.currentHoldings c (q.generate given weekCount start).journal →
        (t.isUsed c id = true ↔
          id ∉ assignments.flatMap (·.ids) ∨ (c = .main ∧ id ∉ released)) := by
  have hknown : ∀ id ∈ assignments.flatMap (·.ids), ∃ r, findLast? q'.recipes id = some r := by
    intro id hid
    obtain ⟨a, ha, hid⟩ := List.mem_flatMap.mp hid
    rw [hrecipes]
    exact named_of_generate hids h id (List.mem_flatMap.mpr ⟨a, hfrom a ha, hid⟩)
  obtain ⟨t, hback⟩ := exists_release hknown released plan.rotation
  exact ⟨t, hback, fun c id i j hheld => isUsed_of_currentHoldings hids h hrecipes hback hheld⟩

end

theorem mem_currentSlots_of_currentHoldings {journal : List Event}
    (h : (id, i, j) ∈ plan.currentHoldings .main journal) :
    (id, i) ∈ plan.currentSlots journal := by
  rw [← Plan.map_currentHoldings_main]
  exact List.mem_map.mpr ⟨(id, i, j), h, rfl⟩

section

variable (h : (q.generate given weekCount start).result = .ok plan)
  (hheld : (id, i, j) ∈ plan.currentHoldings .main (q.generate given weekCount start).journal)

include h hheld

/-- A main course of the current cycle stands in one week only. -/
theorem eq_of_mem_currentSlots {i' : Nat}
    (hslot : (id, i') ∈ plan.currentSlots (q.generate given weekCount start).journal) :
    i' = i := by
  have hnodup := (nodup_lastCycle_of_generate h).1
  rw [← Plan.map_fst_currentSlots (takenOf_main_of_generate h)] at hnodup
  have hsame := List.inj_on_of_nodup_map hnodup hslot
    (mem_currentSlots_of_currentHoldings hheld) rfl
  exact (Prod.mk.inj hsame).2

/-- Weeks that are planned anew release a main course of the current cycle if it stands in one of
them. -/
theorem mem_releasedMains_iff : id ∈ releasedMains plan targets ↔ i ∈ targets := by
  rw [mem_releasedMains h]
  constructor
  · rintro ⟨i', hslot, htarget⟩
    rwa [← eq_of_mem_currentSlots h hheld hslot]
  · exact fun htarget => ⟨i, mem_currentSlots_of_currentHoldings hheld, htarget⟩

/-- A slot that is replaced releases a main course of the current cycle if it has it, and the
current cycle has it in the same week. -/
theorem mem_releasedMain_iff :
    id ∈ releasedMain plan slot ↔ id = slot.assignment.recipeId ∧ i = slot.weekIndex := by
  have hholder : holder? (currentMains plan.weeks plan.rotation) id = some i := by
    rw [holder?_currentMains, currentMains_of_generate h]
    exact List.mem_reverse.mpr (mem_currentSlots_of_currentHoldings hheld)
  unfold releasedMain
  constructor
  · intro hid
    split at hid
    · next hsame =>
        have hown := List.mem_singleton.mp hid
        rw [← hown, hholder] at hsame
        exact ⟨hown, Option.some.inj hsame⟩
    · exact absurd hid List.not_mem_nil
  · rintro ⟨hown, hweek⟩
    rw [← hown, hholder, hweek, if_pos rfl]
    exact List.mem_singleton.mpr rfl

end

/-- What the slots of a generated plan took since the last reset of a course, and which of it is
still marked when slots are given back, the recipes being the same and distinct.  Planning weeks
anew keeps the marks of the main courses that stand in the other weeks, but those of the other
courses only if no week planned anew has the recipe too, from an earlier cycle or, for a side
dish, from the same.  Replacing a slot keeps those of the recipes that the slot does not have,
and of main courses also those that stand in another week. -/
theorem kept_marks_of_generate (hids : (q.recipes.map (·.id)).Nodup)
    (h : (q.generate given weekCount start).result = .ok plan) (hrecipes : q'.recipes = q.recipes) :
    let journal := (q.generate given weekCount start).journal
    (∀ c, (plan.currentHoldings c journal).map (·.1) = lastCycleOf c journal ∧
      ∀ id i j, (id, i, j) ∈ plan.currentHoldings c journal → ∃ w a,
        plan.weeks[i]? = some w ∧ w.assignments[j]? = some a ∧ (c, id) ∈ a.takings) ∧
    (∀ targets, ∃ t, q'.givenBack plan targets = .ok t ∧
      ∀ c id i j, (id, i, j) ∈ plan.currentHoldings c journal →
        (t.isUsed c id = true ↔
          (∀ a ∈ assignmentsOf plan targets, id ∉ a.ids) ∨ (c = .main ∧ i ∉ targets))) ∧
    ∀ slot, plan.HasSlot slot →
      ∃ t, q'.release (releasedMain plan slot) [slot.assignment] plan.rotation = .ok t ∧
        ∀ c id i j, (id, i, j) ∈ plan.currentHoldings c journal →
          (t.isUsed c id = true ↔ id ∉ slot.assignment.ids ∨
            (c = .main ∧ ¬ (id = slot.assignment.recipeId ∧ i = slot.weekIndex))) := by
  intro journal
  refine ⟨fun c => ⟨Plan.map_fst_currentHoldings (generate_ok h).2.2.takings, ?_⟩,
    fun targets => ?_, fun slot hslot => ?_⟩
  · exact fun id i j hheld => Plan.mem_holdings.mp (List.mem_of_mem_drop hheld)
  · obtain ⟨t, hback, hmarks⟩ := exists_release_of_generate hids h hrecipes
      (releasedMains plan targets) fun _ => mem_of_mem_assignmentsOf
    refine ⟨t, hback, fun c id i j hheld => ?_⟩
    rw [hmarks c id i j hheld]
    refine or_congr (by simp) (and_congr_right fun hc => not_congr ?_)
    subst hc
    exact mem_releasedMains_iff h hheld
  · obtain ⟨t, hback, hmarks⟩ := exists_release_of_generate hids h hrecipes
      (releasedMain plan slot) fun a ha => List.mem_singleton.mp ha ▸ hslot.mem
    refine ⟨t, hback, fun c id i j hheld => ?_⟩
    rw [hmarks c id i j hheld, List.flatMap_singleton]
    refine or_congr Iff.rfl (and_congr_right fun hc => not_congr ?_)
    subst hc
    exact mem_releasedMain_iff h hheld

/-- Of three appetizers the Sunday's stays marked when the Tuesday's, another one, is given back. -/
theorem kept_marks_of_generate_tuesday :
    let q := ofRecipes [.plain .main "m", .plain .appetizer "x", .plain .appetizer "y",
      .plain .appetizer "z"]
    let journal := (q.generate none (some 1) (.ok autumnMonday)).journal
    (q.recipes.map (·.id)).Nodup ∧
    ∃ plan slot t, (q.generate none (some 1) (.ok autumnMonday)).result = .ok plan ∧
      plan.findSlot (autumnDay 1) .appetizer = .ok slot ∧
      q.release (releasedMain plan slot) [slot.assignment] plan.rotation = .ok t ∧
      ("x", 0, 12) ∈ plan.currentHoldings .appetizer journal ∧
      t.isUsed .appetizer "x" = true := by
  intro q journal
  have hids : (q.recipes.map (·.id)).Nodup := by decide
  have hrun : ((q.generate none (some 1) (.ok autumnMonday)).result.toOption.any fun plan =>
      (plan.findSlot (autumnDay 1) .appetizer).toOption.any fun slot =>
        ("x", 0, 12) ∈ plan.currentHoldings .appetizer journal ∧
          "x" ∉ slot.assignment.ids) = true := by
    decide +kernel
  obtain ⟨plan, hplan, hrun⟩ := (Option.any_eq_true _ _).mp hrun
  obtain ⟨slot, hslot, hrun⟩ := (Option.any_eq_true _ _).mp hrun
  obtain ⟨hheld, hother⟩ := of_decide_eq_true hrun
  have hok := eq_ok_of_toOption hplan
  have hfound := eq_ok_of_toOption hslot
  obtain ⟨t, hback, hmarks⟩ :=
    (kept_marks_of_generate hids hok rfl).2.2 slot (findSlot_ok hfound).1
  exact ⟨hids, plan, slot, t, hok, hfound, hback, hheld,
    (hmarks .appetizer "x" 0 12 hheld).mpr (Or.inl hother)⟩

/-- The Sunday's appetizer loses its mark when the Monday's, which is the same from an earlier
cycle, is given back. -/
theorem unmarks_untouched :
    let q := ofRecipes [.plain .main "m", .plain .appetizer "x", .plain .appetizer "y",
      .plain .appetizer "z"]
    let journal := (q.generate none (some 1) (.ok autumnMonday)).journal
    (q.recipes.map (·.id)).Nodup ∧
    ∃ plan slot t, (q.generate none (some 1) (.ok autumnMonday)).result = .ok plan ∧
      plan.findSlot autumnMonday .appetizer = .ok slot ∧
      (slot.weekIndex, slot.position) ≠ (0, 12) ∧
      q.release (releasedMain plan slot) [slot.assignment] plan.rotation = .ok t ∧
      ("x", 0, 12) ∈ plan.currentHoldings .appetizer journal ∧
      t.isUsed .appetizer "x" = false := by
  intro q journal
  have hrun : ((q.generate none (some 1) (.ok autumnMonday)).result.toOption.any fun plan =>
      (plan.findSlot autumnMonday .appetizer).toOption.any fun slot =>
        (q.release (releasedMain plan slot) [slot.assignment] plan.rotation).toOption.any fun t =>
          (slot.weekIndex, slot.position) ≠ (0, 12) ∧
            ("x", 0, 12) ∈ plan.currentHoldings .appetizer journal ∧
            t.isUsed .appetizer "x" = false) = true := by
    decide +kernel
  obtain ⟨plan, hplan, hrun⟩ := (Option.any_eq_true _ _).mp hrun
  obtain ⟨slot, hslot, hrun⟩ := (Option.any_eq_true _ _).mp hrun
  obtain ⟨t, hback, hrun⟩ := (Option.any_eq_true _ _).mp hrun
  obtain ⟨hplace, hheld, hlost⟩ := of_decide_eq_true hrun
  exact ⟨by decide, plan, slot, t, eq_ok_of_toOption hplan, eq_ok_of_toOption hslot, hplace,
    eq_ok_of_toOption hback, hheld, hlost⟩

end Request

end MealRota
