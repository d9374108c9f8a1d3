import MealRota.Proofs.Cycles
import MealRota.Proofs.GivingBack

/-!
# MealRota.Proofs.CurrentCycle

Which slots of a generated plan hold the main courses of the current cycle.  The
plan does not say so, and neither does its state, which marks only which main
courses were used; they are recovered as the longest run of distinct marked main
courses at the end of the plan.  For a plan as it was generated the recovery is
exact.

* `Plan.currentSlots` — the slots filled since the last reset, by the journal;
* `Request.currentMains_of_generate` — they are what is recovered.
-/

namespace MealRota

/-! ## the end of a journal -/

theorem cyclesOf_eq_concat (c : Course) (events : List Event) :
    ∃ earlier, cyclesOf c events = earlier ++ [lastCycleOf c events] := by
  unfold lastCycleOf
  rcases List.eq_nil_or_concat (cyclesOf c events) with hnil | ⟨earlier, last, hpieces⟩
  · have hlength := length_cyclesOf c events
    simp [hnil] at hlength
  · rw [hpieces]
    exact ⟨earlier, by simp⟩

/-- What was taken since the last reset is the end of all that was taken. -/
theorem lastCycleOf_suffix (c : Course) (events : List Event) :
    lastCycleOf c events <:+ takenOf c events := by
  obtain ⟨earlier, hpieces⟩ := cyclesOf_eq_concat c events
  rw [← flatten_cyclesOf, hpieces]
  exact ⟨earlier.flatten, by simp⟩

/-- Without a reset, the first piece is the last one. -/
theorem firstCycleOf_of_no_resets {c : Course} {events : List Event} (h : resetsOf c events = 0) :
    firstCycleOf c events = lastCycleOf c events := by
  obtain ⟨earlier, hpieces⟩ := cyclesOf_eq_concat c events
  have hlength := length_cyclesOf c events
  rw [h, hpieces, List.length_append, List.length_singleton] at hlength
  have hnil : earlier = [] := List.length_eq_zero_iff.mp (by omega)
  unfold firstCycleOf
  simp [hpieces, hnil]

/-! ## the end of a plan -/

/-- What is held grows by a run of distinct used ids, up to an id that is unused or held already. -/
theorem takeHeld_append {used : TextSet} {held run rest : List (String × Nat)}
    (hnodup : ((held ++ run).map (·.1)).Nodup) (hused : ∀ x ∈ run, x.1 ∈ used)
    (hrest : ∀ x ∈ rest.head?, x.1 ∈ used → x.1 ∈ (held ++ run).map (·.1)) :
    takeHeld used held (run ++ rest) = held ++ run := by
  induction run generalizing held with
  | nil =>
      rw [List.nil_append, List.append_nil]
      cases rest with
      | nil => rfl
      | cons x rest =>
          have hstop : ¬ (used.contains x.1 = true ∧ ¬ (held.map (·.1)).contains x.1 = true) := by
            simpa using hrest x rfl
          simp only [takeHeld, if_neg hstop]
  | cons x run ih =>
      have hassoc : held ++ x :: run = (held ++ [x]) ++ run := by simp
      have hgo : used.contains x.1 = true ∧ ¬ (held.map (·.1)).contains x.1 = true := by
        refine ⟨TextSet.contains_iff.mpr (hused x List.mem_cons_self), fun hheld => ?_⟩
        rw [List.map_append, List.nodup_append] at hnodup
        exact hnodup.2.2 x.1 (by simpa using hheld) x.1 (by simp) rfl
      rw [hassoc] at hnodup hrest ⊢
      rw [List.cons_append, takeHeld, if_pos hgo]
      exact ih hnodup (fun y hy => hused y (List.mem_cons_of_mem _ hy)) hrest

namespace Plan

/-- The main course slots of a plan: their recipes and the indices of their weeks. -/
def mainSlots (plan : Plan) : List (String × Nat) :=
  plan.weeks.zipIdx.flatMap fun w => w.1.mainIds.map fun id => (id, w.2)

/-- The main course slots that were filled since the last reset of the main courses, given the
journal of the run that filled all slots in their order. -/
def currentSlots (plan : Plan) (journal : List Event) : List (String × Nat) :=
  plan.mainSlots.drop (plan.mainSlots.length - (lastCycleOf .main journal).length)

theorem map_fst_mainSlots (plan : Plan) : plan.mainSlots.map (·.1) = plan.mainIds := by
  have hzip : ∀ (weeks : List Week) (n : Nat),
      ((weeks.zipIdx n).flatMap fun w => w.1.mainIds.map fun id => (id, w.2)).map (·.1) =
        weeks.flatMap (·.mainIds) := by
    intro weeks
    induction weeks with
    | nil => exact fun _ => rfl
    | cons w weeks ih => intro n; simp [List.zipIdx_cons, ih, Function.comp_def]
  exact hzip plan.weeks 0

/-- If the slots of a plan were filled in order, its current slots hold the last cycle. -/
theorem map_fst_currentSlots {plan : Plan} {journal : List Event}
    (h : takenOf .main journal = plan.mainIds) :
    (plan.currentSlots journal).map (·.1) = lastCycleOf .main journal := by
  obtain ⟨front, hfront⟩ := lastCycleOf_suffix .main journal
  have hlength : plan.mainSlots.length = front.length + (lastCycleOf .main journal).length := by
    rw [← List.length_map (·.1), map_fst_mainSlots, ← h, ← hfront, List.length_append]
  rw [currentSlots, List.map_drop, map_fst_mainSlots, ← h, hlength, Nat.add_sub_cancel]
  nth_rewrite 1 [← hfront]
  simp

end Plan

namespace Request

variable {q : Request} {given : Option Rotation} {weekCount : Option Int}
  {start : Except PlanError Date} {plan : Plan}

/-- The main courses that a generation takes are those of the plan, in slot order. -/
theorem takenOf_main_of_generate (h : (q.generate given weekCount start).result = .ok plan) :
    takenOf .main (q.generate given weekCount start).journal = plan.mainIds := by
  have hserves := (generate_ok h).2.2
  unfold takenOf
  rw [hserves.takings, List.filter_flatMap, List.map_flatMap]
  exact List.flatMap_congr fun w _ => takings_of_course (by decide) w.assignments

/-- What counts as used for a course in a generated plan. -/
theorem isUsed_of_generate (h : (q.generate given weekCount start).result = .ok plan) (c : Course)
    (id : String) :
    plan.rotation.isUsed c id = true ↔
      id ∈ lastCycleOf c (q.generate given weekCount start).journal ∨
        (resetsOf c (q.generate given weekCount start).journal = 0 ∧
          (given.getD .fresh).isUsed c id = true) := by
  rw [(generate_ok h).2.1.isUsed, isUsed_replay_iff]

/-- The main courses of the last cycle are distinct, and new to the state that was given if the
cycle was never reset. -/
theorem nodup_lastCycle_of_generate (h : (q.generate given weekCount start).result = .ok plan) :
    (lastCycleOf .main (q.generate given weekCount start).journal).Nodup ∧
      (resetsOf .main (q.generate given weekCount start).journal = 0 →
        ∀ id ∈ lastCycleOf .main (q.generate given weekCount start).journal,
          (given.getD .fresh).isUsed .main id = false) := by
  obtain ⟨hpieces, hfirst⟩ := (generate_ok h).1.nodup_cycles (c := .main) (by decide)
  obtain ⟨earlier, hcycles⟩ := cyclesOf_eq_concat .main (q.generate given weekCount start).journal
  refine ⟨hpieces _ (by simp [hcycles]), fun hresets id hid => hfirst id ?_⟩
  rw [firstCycleOf_of_no_resets hresets]
  exact hid

/-- The recovery of the current cycle is exact for a plan as it was generated. -/
theorem currentMains_of_generate (h : (q.generate given weekCount start).result = .ok plan) :
    currentMains plan.weeks plan.rotation =
      (plan.currentSlots (q.generate given weekCount start).journal).reverse := by
  have htaken := takenOf_main_of_generate h
  have hused := isUsed_of_generate h .main
  have hnodup := (nodup_lastCycle_of_generate h).1
  generalize (q.generate given weekCount start).journal = journal at htaken hused hnodup ⊢
  have hids := Plan.map_fst_currentSlots htaken
  obtain ⟨earlier, hearlier⟩ : plan.currentSlots journal <:+ plan.mainSlots := List.drop_suffix _ _
  have hsplit : mainsBackwards plan.weeks =
      (plan.currentSlots journal).reverse ++ earlier.reverse := by
    show plan.mainSlots.reverse = _
    rw [← hearlier, List.reverse_append]
  unfold currentMains
  rw [hsplit]
  refine takeHeld_append ?_ (fun x hx => ?_) fun x hx hmarked => ?_
  · rw [List.nil_append, List.map_reverse, hids]
    exact List.nodup_reverse.mpr hnodup
  · rw [← Rotation.isUsed_iff_mem, hused, ← hids]
    exact Or.inl (List.mem_map_of_mem (List.mem_reverse.mp hx))
  · -- a slot that is not current was filled before a reset, which took its mark
    rw [List.nil_append, List.map_reverse, List.mem_reverse, hids]
    refine ((hused x.1).mp (Rotation.isUsed_iff_mem.mpr hmarked)).resolve_right fun hnone => ?_
    have hall := congrArg List.length (lastCycleOf_of_no_resets hnone.1)
    rw [← hids, htaken, ← Plan.map_fst_mainSlots, List.length_map, List.length_map, ← hearlier,
      List.length_append] at hall
    have hnil : earlier = [] := List.length_eq_zero_iff.mp (by omega)
    simp [hnil] at hx

end Request

end MealRota
