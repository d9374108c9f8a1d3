import MealRota.Proofs.Replacing
import MealRota.Proofs.WeekLabels

/-!
# MealRota.Proofs.Relabelling

How the labels of the main courses change with a plan.  What a run takes is
labelled as its journal tells, and goes where the run put it: into the weeks
planned anew, or into the slot that was refilled.

* `Relabelling` — what a run does to the labels of a plan;
* `Request.relabelling_of_generation`, `Request.relabelling_of_regeneration`,
  `Request.relabelling_of_replacement` — the three kinds of runs.
-/

namespace MealRota

open Planning

/-! ## runs and labels -/

/-- A plan, the labels of its main courses, and how often the main courses were reset so far. -/
structure LabelledPlan where
  plan : Plan
  labels : Labels
  cycle : Nat

/-- No weeks planned yet, with rows for the labels of so many. -/
def LabelledPlan.unplanned (t : Rotation) (weekCount : Nat) : LabelledPlan where
  plan := ⟨[], t⟩
  labels := List.replicate weekCount []
  cycle := 0

/-- In a plan, every main course of the current cycle is held once and marked. -/
def LabelledPlan.HeldOnce (s : LabelledPlan) : Prop :=
  MealRota.HeldOnce s.labels.flatten s.cycle s.plan.rotation

theorem LabelledPlan.heldOnce_unplanned (t : Rotation) (weekCount : Nat) :
    (unplanned t weekCount).HeldOnce := by
  unfold LabelledPlan.HeldOnce unplanned
  rw [List.flatten_replicate_nil]
  exact .nil 0 t

/-- A run takes main courses, none of them marked, after some others were given back; the labels
of what it leaves untouched are kept, and those of what it took are added. -/
structure Relabelling (s s' : LabelledPlan) (released : List String) (untouched : Labels)
    (journal : List Event) : Prop where
  begun : ∃ t, (∀ id, t.isUsed .main id = true ↔
      s.plan.rotation.isUsed .main id = true ∧ id ∉ released) ∧
    MainsFree t journal ∧ s'.plan.rotation.SameUse (replay t journal)
  kept : untouched.flatten.Subperm s.labels.flatten
  labels : s'.labels.flatten.Perm (untouched.flatten ++ labelled s.cycle journal)
  cycle : s'.cycle = s.cycle + resetsOf .main journal
  fit : s'.labels.Fit s'.plan.weeks

namespace Relabelling

variable {s s' : LabelledPlan} {released : List String} {untouched : Labels} {journal : List Event}

/-- The main courses of the current cycle are held once and marked after a run if and only if it
began the cycle anew or gave nothing back that is still held. -/
theorem heldOnce_iff (h : Relabelling s s' released untouched journal) (hs : s.HeldOnce) :
    s'.HeldOnce ↔ resetsOf .main journal ≠ 0 ∨
      ∀ id ∈ released, id ∉ currentOf s.cycle untouched.flatten := by
  obtain ⟨t, hmarks, hfree, huse⟩ := h.begun
  rw [← MealRota.heldOnce_iff hs h.kept hmarks hfree]
  unfold LabelledPlan.HeldOnce
  rw [h.cycle]
  have hused : ∀ id, s'.plan.rotation.isUsed .main id = (replay t journal).isUsed .main id :=
    fun id => huse.isUsed .main id
  constructor
  · refine fun hafter => (hafter.mono fun id hid => ?_).perm h.labels
    rw [← hused]
    exact hid
  · refine fun hafter => (hafter.mono fun id hid => ?_).perm h.labels.symm
    rw [hused]
    exact hid

/-- No main course is held twice in the current cycle after a run if and only if it began the
cycle anew or took nothing again that it gave back and that is still held. -/
theorem nodup_iff (h : Relabelling s s' released untouched journal) (hs : s.HeldOnce) :
    (currentOf s'.cycle s'.labels.flatten).Nodup ↔ resetsOf .main journal ≠ 0 ∨
      ∀ id ∈ released, id ∈ currentOf s.cycle untouched.flatten → id ∉ takenOf .main journal := by
  obtain ⟨t, hmarks, hfree, -⟩ := h.begun
  rw [← nodup_currentOf_iff hs h.kept hmarks hfree, h.cycle]
  exact ((h.labels.filter _).map _).nodup_iff

end Relabelling

/-! ## weeks planned anew -/

/-- What weeks take for main courses are the main courses that they hold. -/
theorem takenOf_main_of_takings {weeks : List Week} {targets : List Nat} {events : List Event}
    (h : takings events = targets.flatMap (takingsAt weeks)) :
    takenOf .main events = targets.flatMap (mainsAt weeks) := by
  unfold takenOf
  rw [h, List.filter_flatMap, List.map_flatMap]
  refine List.flatMap_congr fun i _ => ?_
  unfold takingsAt mainsAt
  cases weeks[i]? with
  | none => rfl
  | some w => exact takings_of_course (by decide) w.assignments

namespace Labels

variable {labels : Labels} {weeks : List Week} {targets : List Nat} {new : List (String × Nat)}

/-- New labels for weeks planned anew fit them, if the other labels fit the other weeks. -/
theorem fit_relabelWeeks (hlen : labels.length = weeks.length)
    (hold : ∀ j, j ∉ targets → (labels[j]?).map (·.map (·.1)) = (weeks[j]?).map Week.mainIds)
    (hnodup : targets.Nodup) (hin : ∀ i ∈ targets, i < weeks.length)
    (hnew : new.map (·.1) = targets.flatMap (mainsAt weeks)) :
    Labels.Fit (relabelWeeks weeks targets new labels) weeks := by
  rw [fit_iff]
  intro j
  rw [getElem?_relabelWeeks hnodup (fun i hi => by rw [hlen]; exact hin i hi) hnew]
  by_cases hj : j ∈ targets
  · rw [if_pos hj, mainsAt, List.getElem?_eq_getElem (hin j hj)]
    rfl
  · rw [if_neg hj, hold j hj]

end Labels

/-- A labelled plan with weeks planned anew in a run. -/
def LabelledPlan.replanned (s : LabelledPlan) (plan : Plan) (targets : List Nat)
    (journal : List Event) : LabelledPlan where
  plan
  labels := relabelWeeks plan.weeks targets (labelled s.cycle journal) s.labels
  cycle := s.cycle + resetsOf .main journal

/-- A run whose takings are those of the weeks planned anew labels them. -/
theorem Relabelling.of_weeks {s : LabelledPlan} {plan : Plan} {targets : List Nat}
    {released : List String} {journal : List Event} {t : Rotation}
    (hmarks : ∀ id, t.isUsed .main id = true ↔
      s.plan.rotation.isUsed .main id = true ∧ id ∉ released)
    (hfree : MainsFree t journal) (huse : plan.rotation.SameUse (replay t journal))
    (hlen : s.labels.length = plan.weeks.length)
    (hold : ∀ j, j ∉ targets →
      (s.labels[j]?).map (·.map (·.1)) = (plan.weeks[j]?).map Week.mainIds)
    (hnodup : targets.Nodup) (hin : ∀ i ∈ targets, i < plan.weeks.length)
    (htakings : takings journal = targets.flatMap (takingsAt plan.weeks)) :
    Relabelling s (s.replanned plan targets journal) released (s.labels.emptied targets)
      journal := by
  have hnew : (labelled s.cycle journal).map (·.1) = targets.flatMap (mainsAt plan.weeks) := by
    rw [map_fst_labelled]
    exact takenOf_main_of_takings htakings
  have hlength : (labelled s.cycle journal).length =
      (targets.flatMap (mainsAt plan.weeks)).length := by
    rw [← hnew, List.length_map]
  exact {
    begun := ⟨t, hmarks, hfree, huse⟩
    kept := Labels.subperm_emptied s.labels targets
    labels := Labels.flatten_relabelWeeks hnodup (fun i hi => by rw [hlen]; exact hin i hi) hlength
    cycle := rfl
    fit := Labels.fit_relabelWeeks hlen hold hnodup hin hnew }

namespace Request

variable {q : Request} {s : LabelledPlan} {plan' : Plan} {targets : List Nat} {p : Progress}

/-- Generating a plan labels all its weeks. -/
theorem relabelling_of_generation {given : Option Rotation} {weekCount : Option Int}
    {start : Except PlanError Date}
    (h : (q.generate given weekCount start).result = .ok plan') :
    let s := LabelledPlan.unplanned (given.getD .fresh) plan'.weeks.length
    let targets := List.range plan'.weeks.length
    Relabelling s (s.replanned plan' targets (q.generate given weekCount start).journal) []
      (s.labels.emptied targets) (q.generate given weekCount start).journal := by
  intro s targets
  obtain ⟨hlawful, huse, hserves⟩ := generate_ok h
  refine .of_weeks (t := given.getD .fresh) ?_ hlawful.mainsFree huse List.length_replicate ?_
    List.nodup_range (fun i => List.mem_range.mp) ?_
  · exact fun id => (and_iff_left List.not_mem_nil).symm
  · intro j hj
    have hout : plan'.weeks.length ≤ j := Nat.le_of_not_lt fun hlt => hj (List.mem_range.mpr hlt)
    have hnone : s.labels[j]? = none :=
      List.getElem?_eq_none (Nat.le_trans (Nat.le_of_eq List.length_replicate) hout)
    rw [hnone, List.getElem?_eq_none hout]
    rfl
  · rw [hserves.takings]
    exact (flatMap_range_elim _ _).symm

/-- Planning weeks anew labels them. -/
theorem relabelling_of_regeneration (hfit : s.labels.Fit s.plan.weeks) (hnodup : targets.Nodup)
    (hin : ∀ i ∈ targets, i < s.plan.weeks.length)
    (h : q.regeneration s.plan targets = (.ok plan', p)) :
    Relabelling s (s.replanned plan' targets p.journal) (releasedMains s.plan targets)
      (s.labels.emptied targets) p.journal := by
  obtain ⟨t, hback, hcheck, hlawful, huse, hok⟩ := regeneration_ok h
  have hreplans := hok hnodup
  refine .of_weeks (isUsed_of_givenBack hback hcheck) hlawful.mainsFree huse ?_ ?_ hnodup ?_
    hreplans.takings
  · rw [hfit.length, hreplans.length]
  · intro j hj
    rw [hreplans.untouched j hj]
    exact Labels.fit_iff.mp hfit j
  · rw [hreplans.length]
    exact hin

end Request

/-! ## a slot refilled -/

/-- The labels with others in the place of a main course slot's own. -/
def Labels.refill (labels : Labels) (slot : FilledSlot) (new : List (String × Nat)) : Labels :=
  let row := (labels[slot.weekIndex]?).getD []
  let place := (mainIdsOf (slot.week.assignments.take slot.position)).length
  labels.set slot.weekIndex (row.take place ++ new ++ row.drop (place + 1))

/-- The main courses of a week around a place, and the one in it. -/
theorem mainIdsOf_set {l : List Assignment} {i : Nat} (hi : i < l.length) (a : Assignment) :
    mainIdsOf (l.set i a) =
      mainIdsOf (l.take i) ++ mainIdsOf [a] ++ mainIdsOf (l.drop (i + 1)) := by
  rw [List.set_eq_take_append_cons_drop, if_pos hi, mainIdsOf_append, List.append_assoc]
  exact congrArg _ (mainIdsOf_append [a] _)

theorem mainIdsOf_singleton (a : Assignment) :
    mainIdsOf [a] = if a.course = .main then [a.recipeId] else [] := by
  by_cases h : a.course = .main <;> simp [mainIdsOf, h]

namespace Plan.HasSlot

variable {plan : Plan} {slot : FilledSlot} {labels : Labels} {new : List (String × Nat)}

theorem mains_set (h : plan.HasSlot slot) (a : Assignment) :
    mainIdsOf (slot.week.assignments.set slot.position a) =
      mainIdsOf (slot.week.assignments.take slot.position) ++ mainIdsOf [a] ++
        mainIdsOf (slot.week.assignments.drop (slot.position + 1)) :=
  mainIdsOf_set (List.getElem?_eq_some_iff.mp h.assignment).1 a

theorem mains (h : plan.HasSlot slot) :
    slot.week.mainIds =
      mainIdsOf (slot.week.assignments.take slot.position) ++ mainIdsOf [slot.assignment] ++
        mainIdsOf (slot.week.assignments.drop (slot.position + 1)) := by
  obtain ⟨hi, ha⟩ := List.getElem?_eq_some_iff.mp h.assignment
  rw [← h.mains_set slot.assignment, ← ha, List.set_getElem_self, Week.mainIds_eq]

/-- The labels of the slot's week, which are as many as its main courses. -/
theorem row (h : plan.HasSlot slot) (hfit : labels.Fit plan.weeks) :
    ∃ row, labels[slot.weekIndex]? = some row ∧ row.map (·.1) = slot.week.mainIds := by
  have hrow := Labels.fit_iff.mp hfit slot.weekIndex
  rw [h.week] at hrow
  exact Option.map_eq_some_iff.mp hrow

/-- Labels that fit a plan fit it with the slot refilled, once the slot's own label is changed. -/
theorem fit_refill (h : plan.HasSlot slot) (hfit : labels.Fit plan.weeks)
    (hmain : slot.assignment.course = .main) (a : Assignment) (t : Rotation)
    (hnew : new.map (·.1) = mainIdsOf [a]) :
    (labels.refill slot new).Fit (plan.refill slot a t).weeks := by
  obtain ⟨row, hrow, hids⟩ := h.row hfit
  have hin : slot.weekIndex < labels.length := (List.getElem?_eq_some_iff.mp hrow).1
  have hin' : slot.weekIndex < plan.weeks.length := (List.getElem?_eq_some_iff.mp h.week).1
  rw [h.mains, mainIdsOf_singleton, if_pos hmain] at hids
  rw [Labels.fit_iff]
  intro j
  unfold Labels.refill Plan.refill
  by_cases hj : j = slot.weekIndex
  · subst hj
    rw [List.getElem?_set_self hin, List.getElem?_set_self hin', hrow]
    simp only [Option.map_some, Option.getD_some, List.map_append, List.map_take, List.map_drop,
      hids, hnew]
    rw [Week.mainIds_eq, h.mains_set, List.append_assoc (mainIdsOf _) [_], List.take_left,
      List.drop_length_add_append]
    rfl
  · rw [List.getElem?_set_ne (Ne.symm hj), List.getElem?_set_ne (Ne.symm hj)]
    exact Labels.fit_iff.mp hfit j

/-- Refilling a slot of another course leaves the main courses as they are. -/
theorem fit_refill_other (h : plan.HasSlot slot) (hfit : labels.Fit plan.weeks)
    (hother : slot.assignment.course ≠ .main) {a : Assignment} (t : Rotation)
    (ha : mainIdsOf [a] = []) : labels.Fit (plan.refill slot a t).weeks := by
  rw [Labels.fit_iff]
  intro j
  rw [Labels.fit_iff.mp hfit j]
  unfold Plan.refill
  by_cases hj : j = slot.weekIndex
  · subst hj
    rw [List.getElem?_set_self (List.getElem?_eq_some_iff.mp h.week).1, h.week, Option.map_some,
      Option.map_some, h.mains, Week.mainIds_eq, h.mains_set, ha, mainIdsOf_singleton,
      if_neg hother]
  · rw [List.getElem?_set_ne (Ne.symm hj)]

end Plan.HasSlot

namespace Labels

variable {labels : Labels} {slot : FilledSlot} {row : List (String × Nat)}

/-- Without the label of a slot there are fewer labels. -/
theorem subperm_refill (h : labels[slot.weekIndex]? = some row) :
    (labels.refill slot []).flatten.Subperm labels.flatten := by
  refine subperm_set h ?_
  rw [h, Option.getD_some, List.append_nil, ← List.eraseIdx_eq_take_drop_succ]
  exact List.eraseIdx_sublist _ _

/-- The new labels of a slot are added to those of the others. -/
theorem flatten_refill (h : slot.weekIndex < labels.length) (new : List (String × Nat)) :
    (labels.refill slot new).flatten.Perm ((labels.refill slot []).flatten ++ new) :=
  flatten_set_between h _ _ _

end Labels

/-- A labelled plan with a slot refilled in a run. -/
def LabelledPlan.refilled (s : LabelledPlan) (plan : Plan) (slot : FilledSlot) (course : Course)
    (journal : List Event) : LabelledPlan where
  plan
  labels := if course = .main then s.labels.refill slot (labelled s.cycle journal) else s.labels
  cycle := s.cycle + resetsOf .main journal

/-- Replacing the recipe of a slot labels the slot, if it is for a main course. -/
theorem Request.relabelling_of_replacement {q : Request} {s : LabelledPlan} {plan' : Plan}
    {p : Progress} {date : Date} {course : Course} {newId : Option String}
    (hfit : s.labels.Fit s.plan.weeks)
    (h : q.replacement s.plan date course newId = (.ok plan', p)) :
    ∃ slot, s.plan.findSlot date course = .ok slot ∧
      Relabelling s (s.refilled plan' slot course p.journal) (releasedMain s.plan slot)
        (if course = .main then s.labels.refill slot [] else s.labels) p.journal := by
  obtain ⟨slot, a, t, hfound, hcheck, hback, hcourse, hplan, huse, hfree, htaken⟩ :=
    replacement_ok h
  obtain ⟨hslot, -, hown⟩ := findSlot_ok hfound
  obtain ⟨row, hrow, -⟩ := hslot.row hfit
  have hin : slot.weekIndex < s.labels.length := (List.getElem?_eq_some_iff.mp hrow).1
  have hnew : (labelled s.cycle p.journal).map (·.1) = mainIdsOf [a] := by
    rw [map_fst_labelled, htaken, mainIdsOf_singleton, hcourse]
  have hbegun := isUsed_of_releasedMain hback hcheck
  refine ⟨slot, hfound, ⟨⟨t, hbegun, hfree, huse⟩, ?_, ?_, rfl, ?_⟩⟩
  · by_cases hmain : course = .main
    · rw [if_pos hmain]
      exact Labels.subperm_refill hrow
    · rw [if_neg hmain]
  · unfold LabelledPlan.refilled
    by_cases hmain : course = .main
    · rw [if_pos hmain, if_pos hmain]
      exact Labels.flatten_refill hin _
    · rw [mainIdsOf_singleton, hcourse, if_neg hmain, List.map_eq_nil_iff] at hnew
      rw [if_neg hmain, if_neg hmain, hnew, List.append_nil]
  · unfold LabelledPlan.refilled
    simp only
    rw [hplan]
    by_cases hmain : course = .main
    · rw [if_pos hmain]
      exact hslot.fit_refill hfit (hown.trans hmain) a _ hnew
    · rw [if_neg hmain]
      refine hslot.fit_refill_other hfit (fun hc => hmain (hown.symm.trans hc)) _ ?_
      rw [mainIdsOf_singleton, hcourse, if_neg hmain]

end MealRota
