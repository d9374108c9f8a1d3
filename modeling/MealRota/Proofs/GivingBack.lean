import MealRota.Proofs.Replanning

/-!
# MealRota.Proofs.GivingBack

Which marks are given back before slots are filled anew.  Of the main courses
only those held by the slots in question lose their marks.

* `mem_currentMains`, `holder?_currentMains` — what counts as held by a week is marked and stands
  in it, and no other week holds it;
* `Request.isUsed_of_release` — the marks after assignments were given back;
* `Request.isUsed_of_givenBack` — the marks from which weeks are planned anew.
-/

namespace MealRota

/-! ## marks that fit the recipes -/

namespace Rotation

theorem problemOf?_eq_none_iff {recipes : List Recipe} {c : Course} {id : String} :
    problemOf? recipes c id = none ↔ ∃ r, findLast? recipes id = some r ∧ r.course = c := by
  unfold problemOf?
  cases findLast? recipes id with
  | none => simp
  | some r => by_cases hc : r.course = c <;> simp [hc]

theorem isUsed_iff_entry {t : Rotation} {c : Course} {id : String} :
    t.isUsed c id = true ↔ ∃ ids, (c, ids) ∈ t.used.entries ∧ id ∈ ids.toList := by
  simp only [← Table.get?_eq_some_iff, isUsed_iff_mem, usedIds, ← TextSet.mem_def]
  cases t.used.get? c <;> simp

/-- A state fits the recipes if it marks only recipes of the course. -/
theorem check_ok_iff {recipes : List Recipe} {t : Rotation} :
    t.check recipes = .ok () ↔
      ∀ c id, t.isUsed c id = true → ∃ r, findLast? recipes id = some r ∧ r.course = c := by
  have hproblem : t.check recipes = .ok () ↔ t.problem? recipes = none := by
    unfold check
    cases t.problem? recipes <;> simp
  simp only [hproblem, problem?, List.findSome?_eq_none_iff, problemOf?_eq_none_iff,
    isUsed_iff_entry]
  constructor
  · rintro h c id ⟨ids, hentry, hid⟩
    exact h (c, ids) hentry id hid
  · rintro h ⟨c, ids⟩ hentry id hid
    exact h c id ⟨ids, hentry, hid⟩

theorem isUsed_release (t : Rotation) (c d : Course) (id x : String) :
    (t.release c id).isUsed d x = true ↔ t.isUsed d x = true ∧ ¬ (d = c ∧ x = id) := by
  unfold release
  by_cases hid : t.isUsed c id = true
  · rw [if_pos hid]
    simp only [isUsed, usedIds, Table.get?_set, TextSet.contains_iff]
    by_cases hd : c = d
    · subst hd
      simp
    · simp [hd, Ne.symm hd]
  · rw [if_neg hid]
    constructor
    · refine fun hx => ⟨hx, ?_⟩
      rintro ⟨rfl, rfl⟩
      exact hid hx
    · exact And.left

theorem isUsed_discountServing (t : Rotation) (k : Cuisine) (d : Course) (x : String) :
    (t.discountServing k).isUsed d x = t.isUsed d x := by
  unfold discountServing
  split <;> rfl

/-- Giving a recipe back takes its mark, that of a main course only if it is among those
released. -/
theorem isUsed_giveBack (t : Rotation) (released : List String) (r : Recipe) (c : Course)
    (x : String) :
    (t.giveBack released r).isUsed c x = true ↔
      t.isUsed c x = true ∧ ¬ (x = r.id ∧ (c = .main → x ∈ released) ∧ r.course = c) := by
  unfold giveBack
  rw [isUsed_discountServing]
  by_cases hkept : r.course = .main ∧ ¬ released.contains r.id = true
  · rw [if_pos hkept]
    have hout : r.id ∉ released := by simpa using hkept.2
    refine (and_iff_left ?_).symm
    rintro ⟨rfl, hin, hc⟩
    exact hout (hin (hc.symm.trans hkept.1))
  · rw [if_neg hkept, isUsed_release]
    have hin : r.course = .main → r.id ∈ released := by simpa using hkept
    grind

end Rotation

theorem findLast?_id {recipes : List Recipe} {id : String} {r : Recipe}
    (h : findLast? recipes id = some r) : r.id = id := by
  unfold findLast? at h
  simpa using List.find?_some h

namespace Request

variable {q : Request} {released : List String} {s t : Rotation}

/-- Giving the recipes of some ids back takes their marks, those of main courses only if they are
released. -/
theorem isUsed_of_giveBackIds {ids : List String} (h : ids.foldlM (q.giveBackId released) s = .ok t)
    (c : Course) (x : String) :
    t.isUsed c x = true ↔ s.isUsed c x = true ∧ ¬ (x ∈ ids ∧ (c = .main → x ∈ released) ∧
      ∃ r, findLast? q.recipes x = some r ∧ r.course = c) := by
  induction ids generalizing s with
  | nil =>
      rw [← Except.ok.inj h]
      simp
  | cons id ids ih =>
      rw [List.foldlM_cons] at h
      unfold giveBackId at h
      cases hr : findLast? q.recipes id with
      | none =>
          rw [hr] at h
          contradiction
      | some r =>
          rw [hr] at h
          rw [ih h, Rotation.isUsed_giveBack, findLast?_id hr, List.mem_cons]
          by_cases hx : x = id
          · subst hx
            simp only [hr, Option.some.injEq, exists_eq_left', true_and, true_or]
            grind
          · simp only [hx, false_and, not_false_eq_true, and_true, false_or]

theorem isUsed_of_release {assignments : List Assignment}
    (h : q.release released assignments s = .ok t) (hcheck : s.check q.recipes = .ok ())
    (hreleased : ∀ id ∈ released, s.isUsed .main id = true ∧ id ∈ assignments.flatMap (·.ids))
    (id : String) :
    t.isUsed .main id = true ↔ s.isUsed .main id = true ∧ id ∉ released := by
  rw [isUsed_of_giveBackIds h]
  refine and_congr_right fun _ => not_congr ?_
  constructor
  · exact fun hid => hid.2.1 rfl
  · intro hid
    obtain ⟨hused, hin⟩ := hreleased id hid
    exact ⟨hin, fun _ => hid, Rotation.check_ok_iff.mp hcheck .main id hused⟩

end Request

/-! ## what weeks hold -/

/-- What is held is used, and was held before or comes from the list. -/
theorem mem_takeHeld {used : TextSet} {held l : List (String × Nat)} {x : String × Nat}
    (h : x ∈ takeHeld used held l) : x ∈ held ∨ (x ∈ l ∧ x.1 ∈ used) := by
  induction l generalizing held with
  | nil => exact Or.inl h
  | cons y l ih =>
      obtain ⟨id, i⟩ := y
      unfold takeHeld at h
      split at h
      · next hcond =>
          rcases ih h with hheld | ⟨hl, hused⟩
          · rcases List.mem_append.mp hheld with hheld | hnew
            · exact Or.inl hheld
            · rw [List.mem_singleton] at hnew
              subst hnew
              exact Or.inr ⟨List.mem_cons_self, TextSet.contains_iff.mp hcond.1⟩
          · exact Or.inr ⟨List.mem_cons_of_mem _ hl, hused⟩
      · exact Or.inl h

/-- A main course that a week holds is marked and stands in the week. -/
theorem mem_currentMains {weeks : List Week} {t : Rotation} {id : String} {i : Nat}
    (h : (id, i) ∈ currentMains weeks t) :
    t.isUsed .main id = true ∧ ∃ w, weeks[i]? = some w ∧ id ∈ w.mainIds := by
  rcases mem_takeHeld h with hnone | ⟨hmem, hused⟩
  · exact absurd hnone List.not_mem_nil
  · refine ⟨Rotation.isUsed_iff_mem.mpr hused, ?_⟩
    unfold mainsBackwards at hmem
    rw [List.mem_reverse, List.mem_flatMap] at hmem
    obtain ⟨⟨w, j⟩, hw, hid⟩ := hmem
    obtain ⟨id', hid', heq⟩ := List.mem_map.mp hid
    obtain ⟨rfl, rfl⟩ := Prod.mk.inj heq
    exact ⟨w, List.mem_zipIdx_iff_getElem?.mp hw, hid'⟩

theorem nodup_takeHeld {used : TextSet} {held l : List (String × Nat)}
    (h : (held.map (·.1)).Nodup) : ((takeHeld used held l).map (·.1)).Nodup := by
  induction l generalizing held with
  | nil => exact h
  | cons x l ih =>
      unfold takeHeld
      split
      · next hcond =>
          have hnew : x.1 ∉ held.map (·.1) := by simpa using hcond.2
          refine ih ?_
          rw [List.map_append, List.nodup_append_comm]
          exact List.nodup_cons.mpr ⟨hnew, h⟩
      · exact h

/-- Each main course of the current cycle is held by one week. -/
theorem holder?_currentMains {weeks : List Week} {t : Rotation} {id : String} {i : Nat} :
    holder? (currentMains weeks t) id = some i ↔ (id, i) ∈ currentMains weeks t := by
  have hnodup : ((currentMains weeks t).map (·.1)).Nodup := nodup_takeHeld List.nodup_nil
  unfold holder?
  constructor
  · intro hfound
    obtain ⟨⟨id', i'⟩, hfind, rfl⟩ := Option.map_eq_some_iff.mp hfound
    obtain rfl : id' = id := by simpa using List.find?_some hfind
    exact List.mem_of_find?_eq_some hfind
  · intro hmem
    have hsome : ((currentMains weeks t).find? fun p => p.1 = id).isSome = true :=
      List.find?_isSome.mpr ⟨(id, i), hmem, decide_eq_true rfl⟩
    obtain ⟨x, hfind⟩ := Option.isSome_iff_exists.mp hsome
    have hid : x.1 = id := by simpa using List.find?_some hfind
    rw [hfind, List.inj_on_of_nodup_map hnodup (List.mem_of_find?_eq_some hfind) hmem hid]
    rfl

theorem mem_ids_of_mem_mainIds {w : Week} {id : String} (h : id ∈ w.mainIds) :
    id ∈ w.assignments.flatMap (·.ids) := by
  obtain ⟨a, ha, rfl⟩ := List.mem_map.mp h
  exact List.mem_flatMap.mpr ⟨a, (List.mem_filter.mp ha).1, List.mem_cons_self⟩

namespace Request

variable {q : Request} {plan : Plan} {targets : List Nat} {t : Rotation}

/-- Weeks are planned anew from the marks of the plan without those that they hold. -/
theorem isUsed_of_givenBack (h : q.givenBack plan targets = .ok t)
    (hcheck : plan.rotation.check q.recipes = .ok ()) (id : String) :
    t.isUsed .main id = true ↔
      plan.rotation.isUsed .main id = true ∧ id ∉ releasedMains plan targets := by
  refine isUsed_of_release h hcheck (fun id hid => ?_) id
  unfold releasedMains at hid
  obtain ⟨⟨id, i⟩, hheld, rfl⟩ := List.mem_map.mp hid
  obtain ⟨hcurrent, htarget⟩ := List.mem_filter.mp hheld
  obtain ⟨hused, w, hw, hid⟩ := mem_currentMains hcurrent
  refine ⟨hused, ?_⟩
  obtain ⟨a, ha, hin⟩ := List.mem_flatMap.mp (mem_ids_of_mem_mainIds hid)
  refine List.mem_flatMap.mpr ⟨a, ?_, hin⟩
  refine List.mem_flatMap.mpr ⟨i, by simpa using htarget, ?_⟩
  rw [hw]
  exact ha

/-- The journal of a run that plans weeks anew and succeeds is lawful from the state in which they
were given back, tells the state of the plan, and takes what the new weeks serve. -/
theorem regeneration_ok {plan' : Plan} {p : Progress}
    (h : q.regeneration plan targets = (.ok plan', p)) :
    ∃ t, q.givenBack plan targets = .ok t ∧ plan.rotation.check q.recipes = .ok () ∧
      q.pool.Lawful t p.journal ∧ plan'.rotation.SameUse (replay t p.journal) ∧
      (targets.Nodup → Replans plan.weeks plan'.weeks targets (takings p.journal)) := by
  have hrun := Planning.run_reporting_ok.mp h
  rcases regenerateSteps_follows (q := q) (p := q.start plan.rotation) plan targets rfl with
    ⟨e, hrefused⟩ | ⟨t, step, hback, hcheck, hsame, events, htrace, -, hok⟩
  · rw [hrefused] at hrun
    simp at hrun
  · rw [← hsame, hrun] at htrace hok
    rw [htrace.journal_eq rfl, rotation_of_regeneration h]
    exact ⟨t, hback, hcheck, htrace.lawful, htrace.use, hok plan' rfl⟩

end Request

end MealRota
