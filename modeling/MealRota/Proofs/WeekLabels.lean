import Mathlib.Data.List.Perm.Basic
import MealRota.Proofs.Labels

/-!
# MealRota.Proofs.WeekLabels

The labels of a plan, a row for each week and in it a label for each main course
slot, and how they change with the plan.

* `Labels.Fit` — the labels are those of the main courses of the weeks;
* `relabelWeeks` — new labels for the weeks that were planned anew.
-/

namespace MealRota

/-- The labelled main courses of a plan, week by week. -/
abbrev Labels := List (List (String × Nat))

/-- The labels belong to the main course slots of the weeks. -/
def Labels.Fit (labels : Labels) (weeks : List Week) : Prop :=
  labels.map (·.map (·.1)) = weeks.map (·.mainIds)

/-- The main courses of the week of an index. -/
def mainsAt (weeks : List Week) (index : Nat) : List String := (weeks[index]?).elim [] Week.mainIds

/-- The labels without those of some weeks. -/
def Labels.emptied (labels : Labels) (targets : List Nat) : Labels :=
  targets.foldl (fun labels i => labels.set i []) labels

/-- The labels with new ones for some weeks, which come in the order of these weeks. -/
def relabelWeeks (weeks : List Week) : List Nat → List (String × Nat) → Labels → Labels
  | [], _, labels => labels
  | i :: targets, new, labels =>
      relabelWeeks weeks targets (new.drop (mainsAt weeks i).length)
        (labels.set i (new.take (mainsAt weeks i).length))

namespace Labels

variable {labels : Labels} {weeks : List Week} {targets : List Nat} {i j : Nat}
  {row : List (String × Nat)} {new : List (String × Nat)}

theorem fit_iff : labels.Fit weeks ↔
    ∀ i : Nat, (labels[i]?).map (·.map (·.1)) = (weeks[i]?).map Week.mainIds := by
  unfold Fit
  rw [List.ext_getElem?_iff]
  simp only [List.getElem?_map]

theorem Fit.length (h : labels.Fit weeks) : labels.length = weeks.length := by
  have hlen := congrArg List.length h
  rwa [List.length_map, List.length_map] at hlen

/-! ## one row -/

/-- The labels of a row are added to those of the others. -/
theorem flatten_set (h : i < labels.length) (row : List (String × Nat)) :
    (labels.set i row).flatten.Perm ((labels.set i []).flatten ++ row) := by
  have hrow : (labels.set i row).flatten.Perm (row ++ (labels.eraseIdx i).flatten) :=
    (List.set_perm_cons_eraseIdx h row).flatten
  have hnone : (labels.set i []).flatten.Perm (labels.eraseIdx i).flatten :=
    (List.set_perm_cons_eraseIdx h []).flatten
  exact hrow.trans (List.perm_append_comm.trans (hnone.symm.append_right row))

/-- Labels put somewhere into a row are added to the others. -/
theorem flatten_set_between (h : i < labels.length) (before new after : List (String × Nat)) :
    (labels.set i (before ++ new ++ after)).flatten.Perm
      ((labels.set i (before ++ [] ++ after)).flatten ++ new) := by
  refine (flatten_set h _).trans (List.Perm.trans ?_ ((flatten_set h _).symm.append_right new))
  rw [List.append_nil, List.append_assoc, List.append_assoc, List.append_assoc]
  exact (List.perm_append_comm.append_left before).append_left _

/-- Fewer labels in a row are fewer labels altogether. -/
theorem subperm_set (h : labels[i]? = some row) {kept : List (String × Nat)}
    (hkept : kept.Sublist row) : (labels.set i kept).flatten.Subperm labels.flatten := by
  obtain ⟨hi, hrow⟩ := List.getElem?_eq_some_iff.mp h
  have hsame : labels.set i row = labels := by
    rw [← hrow]
    exact List.set_getElem_self hi
  have hall : labels.flatten.Perm ((labels.set i []).flatten ++ row) := by
    have hset := flatten_set hi row
    rw [hsame] at hset
    exact hset
  exact ((flatten_set hi kept).subperm_right.mpr
    ((List.Sublist.append_left hkept _).subperm)).trans hall.symm.subperm

/-! ## several weeks -/

theorem length_emptied (labels : Labels) (targets : List Nat) :
    (labels.emptied targets).length = labels.length := by
  unfold emptied
  induction targets generalizing labels with
  | nil => rfl
  | cons i targets ih => rw [List.foldl_cons, ih, List.length_set]

theorem emptied_set (hi : i ∉ targets) (labels : Labels) (row : List (String × Nat)) :
    Labels.emptied (labels.set i row) targets = (labels.emptied targets).set i row := by
  unfold emptied
  induction targets generalizing labels with
  | nil => rfl
  | cons j targets ih =>
      rw [List.mem_cons, not_or] at hi
      rw [List.foldl_cons, List.foldl_cons, List.set_comm _ _ hi.1, ih hi.2]

/-- Emptying weeks leaves fewer labels. -/
theorem subperm_emptied (labels : Labels) (targets : List Nat) :
    (labels.emptied targets).flatten.Subperm labels.flatten := by
  unfold emptied
  induction targets generalizing labels with
  | nil => exact List.Subperm.refl _
  | cons i targets ih =>
      rw [List.foldl_cons]
      refine (ih (labels.set i [])).trans ?_
      cases hi : labels[i]? with
      | none => rw [List.set_eq_of_length_le (List.getElem?_eq_none_iff.mp hi)]
      | some row => exact subperm_set hi (List.nil_sublist row)

/-- New labels are added to those of the weeks that were not planned anew. -/
theorem flatten_relabelWeeks (hnodup : targets.Nodup) (hin : ∀ i ∈ targets, i < labels.length)
    (hnew : new.length = (targets.flatMap (mainsAt weeks)).length) :
    (relabelWeeks weeks targets new labels).flatten.Perm
      ((labels.emptied targets).flatten ++ new) := by
  induction targets generalizing labels new with
  | nil =>
      rw [List.length_eq_zero_iff.mp hnew, List.append_nil]
      exact List.Perm.refl _
  | cons i targets ih =>
      rw [List.nodup_cons] at hnodup
      rw [List.flatMap_cons, List.length_append] at hnew
      have hi : i < labels.length := hin i List.mem_cons_self
      have hrest : (relabelWeeks weeks (i :: targets) new labels).flatten.Perm
          ((Labels.emptied (labels.set i (new.take (mainsAt weeks i).length)) targets).flatten ++
            new.drop (mainsAt weeks i).length) :=
        ih hnodup.2 (fun j hj => by rw [List.length_set]; exact hin j (List.mem_cons_of_mem _ hj))
          (by rw [List.length_drop]; omega)
      rw [emptied_set hnodup.1] at hrest
      have hrow : ((labels.emptied targets).set i (new.take (mainsAt weeks i).length)).flatten.Perm
          ((labels.emptied (i :: targets)).flatten ++ new.take (mainsAt weeks i).length) := by
        have hlen : i < (labels.emptied targets).length := by
          rw [length_emptied]
          exact hi
        have hset := flatten_set hlen (new.take (mainsAt weeks i).length)
        rw [← emptied_set hnodup.1 labels []] at hset
        exact hset
      have hjoin := hrest.trans (hrow.append_right _)
      rw [List.append_assoc, List.take_append_drop] at hjoin
      exact hjoin

/-- The rows of the weeks planned anew are the new ones, and the others stay. -/
theorem getElem?_relabelWeeks (hnodup : targets.Nodup) (hin : ∀ i ∈ targets, i < labels.length)
    (hnew : new.map (·.1) = targets.flatMap (mainsAt weeks)) (j : Nat) :
    ((relabelWeeks weeks targets new labels)[j]?).map (·.map (·.1)) =
      if j ∈ targets then some (mainsAt weeks j) else (labels[j]?).map (·.map (·.1)) := by
  induction targets generalizing labels new with
  | nil => simp [relabelWeeks]
  | cons i targets ih =>
      rw [List.nodup_cons] at hnodup
      rw [List.flatMap_cons] at hnew
      have hi : i < labels.length := hin i List.mem_cons_self
      have hfirst : (new.take (mainsAt weeks i).length).map (·.1) = mainsAt weeks i := by
        rw [List.map_take, hnew, List.take_left]
      have hrest : (new.drop (mainsAt weeks i).length).map (·.1) =
          targets.flatMap (mainsAt weeks) := by
        rw [List.map_drop, hnew, List.drop_left]
      rw [relabelWeeks, ih hnodup.2
        (fun j hj => by rw [List.length_set]; exact hin j (List.mem_cons_of_mem _ hj)) hrest]
      by_cases hj : j ∈ targets
      · rw [if_pos hj, if_pos (List.mem_cons_of_mem _ hj)]
      · rw [if_neg hj]
        by_cases hij : j = i
        · subst hij
          rw [if_pos List.mem_cons_self, List.getElem?_set_self hi, Option.map_some, hfirst]
        · rw [if_neg (by simp [hij, hj]), List.getElem?_set_ne (Ne.symm hij)]

end Labels

end MealRota
