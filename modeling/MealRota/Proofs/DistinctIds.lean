import Mathlib.Data.List.Nodup
import Mathlib.Data.List.Perm.Basic
import MealRota.Proofs.GivingBack

/-!
# MealRota.Proofs.DistinctIds

Recipes of which no two share an id.  An id then names the same recipe wherever it
is looked up, and the order in which the recipes are given is lost in the pool.

* `findLast?_eq_some_iff` — an id names a recipe of the list;
* `Pool.perm_ofRecipes` — the pool has every recipe of the list;
* `findLast?_perm`, `Pool.ofEligible_perm` — neither depends on the order of the list.
-/

namespace MealRota

variable {recipes recipes' : List Recipe} {r : Recipe} {id : String}

/-! ## looking up in the list -/

/-- The id of a recipe of the list is found. -/
theorem findLast?_of_mem (hr : r ∈ recipes) : ∃ s ∈ recipes, findLast? recipes r.id = some s := by
  have hsome : (findLast? recipes r.id).isSome = true := by
    unfold findLast?
    rw [List.find?_isSome]
    exact ⟨r, List.mem_reverse.mpr hr, by simp⟩
  obtain ⟨s, hs⟩ := Option.isSome_iff_exists.mp hsome
  exact ⟨s, List.mem_reverse.mp (List.mem_of_find?_eq_some hs), hs⟩

theorem findLast?_eq_some_iff (h : (recipes.map (·.id)).Nodup) :
    findLast? recipes id = some r ↔ r ∈ recipes ∧ r.id = id := by
  constructor
  · intro hfind
    exact ⟨List.mem_reverse.mp (List.mem_of_find?_eq_some hfind), findLast?_id hfind⟩
  · rintro ⟨hr, rfl⟩
    obtain ⟨s, hmem, hs⟩ := findLast?_of_mem hr
    rw [hs, List.inj_on_of_nodup_map h hmem hr (findLast?_id hs)]

theorem findLast?_perm (hperm : recipes.Perm recipes') (h : (recipes.map (·.id)).Nodup)
    (id : String) : findLast? recipes' id = findLast? recipes id := by
  have h' : (recipes'.map (·.id)).Nodup := (hperm.map _).nodup_iff.mp h
  ext r
  rw [findLast?_eq_some_iff h, findLast?_eq_some_iff h', hperm.mem_iff]

/-! ## the pool -/

theorem perm_insertById {l : List Recipe} (h : r.id ∉ l.map (·.id)) :
    (insertById r l).Perm (r :: l) := by
  induction l with
  | nil => exact List.Perm.refl _
  | cons s l ih =>
      rw [List.map_cons, List.mem_cons, not_or] at h
      unfold insertById
      split
      · exact List.Perm.refl _
      · rw [if_neg h.1]
        exact ((ih h.2).cons s).trans (List.Perm.swap r s l)

/-- No recipe with an id of its own is left out. -/
theorem duplicateIds_eq_nil (h : (recipes.map (·.id)).Nodup) : duplicateIds recipes = [] := by
  have hgo : ∀ (l : List Recipe) (seen : List String), (l.map (·.id)).Nodup →
      (∀ r ∈ l, r.id ∉ seen) → duplicateIds.go seen l = [] := by
    intro l
    induction l with
    | nil => exact fun _ _ _ => rfl
    | cons r l ih =>
        intro seen hnodup hnew
        rw [List.map_cons, List.nodup_cons] at hnodup
        have hr : seen.contains r.id = false := by simpa using hnew r List.mem_cons_self
        simp only [duplicateIds.go, hr, Bool.false_eq_true, if_false]
        refine ih _ hnodup.2 fun s hs => ?_
        rw [List.mem_cons, not_or]
        exact ⟨fun hid => hnodup.1 (hid ▸ List.mem_map_of_mem hs),
          hnew s (List.mem_cons_of_mem _ hs)⟩
  cases recipes with
  | nil => rfl
  | cons r l =>
      rw [List.map_cons, List.nodup_cons] at h
      refine hgo l [r.id] h.2 fun s hs hid => ?_
      rw [List.mem_singleton] at hid
      exact h.1 (hid ▸ List.mem_map_of_mem hs)

namespace Pool

/-- The pool has every recipe of the list. -/
theorem perm_ofRecipes (h : (recipes.map (·.id)).Nodup) :
    (ofRecipes recipes).recipes.Perm recipes := by
  have hgo : ∀ (l : List Recipe) (p : Pool), ((p.recipes ++ l).map (·.id)).Nodup →
      (l.foldl add p).recipes.Perm (p.recipes ++ l) := by
    intro l
    induction l with
    | nil => intro p _; simp
    | cons r l ih =>
        intro p hnodup
        have hnew : r.id ∉ p.recipes.map (·.id) := by
          rw [List.map_append, List.nodup_append] at hnodup
          exact fun hr => hnodup.2.2 _ hr _ (by simp) rfl
        have hadd : ((p.add r).recipes ++ l).Perm (p.recipes ++ r :: l) :=
          ((perm_insertById hnew).append_right l).trans List.perm_middle.symm
        exact (ih (p.add r) ((hadd.map _).nodup_iff.mpr hnodup)).trans hadd
  exact hgo recipes empty h

/-- A pool is determined by its recipes. -/
theorem eq_of_perm {p q : Pool} (h : p.recipes.Perm q.recipes) : p = q := by
  obtain ⟨l, hl⟩ := p
  obtain ⟨m, hm⟩ := q
  have heq : l = m :=
    List.Perm.eq_of_pairwise (fun a b _ _ hab hba => absurd hba (String.lt_asymm hab)) hl hm h
  subst heq
  rfl

variable {prefs : Preferences}

theorem nodup_eligible (h : (recipes.map (·.id)).Nodup) (prefs : Preferences) :
    ((eligible recipes prefs).map (·.id)).Nodup :=
  h.sublist (List.filter_sublist.map _)

theorem eligible_perm (hperm : recipes.Perm recipes') (prefs : Preferences) :
    (eligible recipes prefs).Perm (eligible recipes' prefs) :=
  hperm.filter _

/-- The pool of the eligible recipes has all of them, and no others. -/
theorem mem_ofEligible (h : (recipes.map (·.id)).Nodup) :
    r ∈ (ofEligible recipes prefs).recipes ↔ r ∈ eligible recipes prefs :=
  (perm_ofRecipes (nodup_eligible h prefs)).mem_iff

/-- The order in which the recipes are given makes no difference to the pool. -/
theorem ofEligible_perm (hperm : recipes.Perm recipes') (h : (recipes.map (·.id)).Nodup) :
    ofEligible recipes' prefs = ofEligible recipes prefs := by
  have h' : (recipes'.map (·.id)).Nodup := (hperm.map _).nodup_iff.mp h
  have hpool := perm_ofRecipes (nodup_eligible h prefs)
  have hpool' := perm_ofRecipes (nodup_eligible h' prefs)
  exact eq_of_perm (hpool'.trans ((eligible_perm hperm prefs).symm.trans hpool.symm))

/-- Nor does it make a difference to what the journal says of the pool. -/
theorem ofEligibleEvents_perm (hperm : recipes.Perm recipes')
    (h : (recipes.map (·.id)).Nodup) :
    ofEligibleEvents recipes' prefs = ofEligibleEvents recipes prefs := by
  have h' : (recipes'.map (·.id)).Nodup := (hperm.map _).nodup_iff.mp h
  unfold ofEligibleEvents ofRecipesEvents
  rw [duplicateIds_eq_nil (nodup_eligible h prefs), duplicateIds_eq_nil (nodup_eligible h' prefs),
    hperm.length_eq, (eligible_perm hperm prefs).length_eq]

end Pool

end MealRota
