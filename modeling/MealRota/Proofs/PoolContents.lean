import Mathlib.Algebra.GroupWithZero.Nat
import MealRota.Proofs.DietaryPools
import MealRota.Proofs.DistinctIds

/-!
# MealRota.Proofs.PoolContents

What a pool that is made of a list of recipes holds, whatever ids the list repeats: of each
id the first recipe, once, in the course of that recipe.

* `IsFirst` — a recipe is the first one of its id in a list;
* `Pool.mem_ofRecipes`, `Pool.map_id_ofRecipes` — the recipes of the pool and their ids;
* `Pool.ofRecipes_append`, `duplicateIds_append` — what further recipes of known ids come to;
* `Pool.contents_ofRecipes` — courses, counts and look-ups together.
-/

namespace MealRota

variable {recipes more : List Recipe} {r : Recipe} {id : String}

/-- A recipe of a list with none of the same id before it. -/
def IsFirst (recipes : List Recipe) (r : Recipe) : Prop :=
  recipes.find? (fun s => s.id = r.id) = some r

/-- Every id of a list is the id of some first recipe. -/
theorem exists_isFirst (h : id ∈ recipes.map (·.id)) : ∃ r, IsFirst recipes r ∧ r.id = id := by
  obtain ⟨s, hs, rfl⟩ := List.mem_map.mp h
  have hfound : (recipes.find? fun t => t.id = s.id).isSome = true :=
    List.find?_isSome.mpr ⟨s, hs, by simp⟩
  obtain ⟨r, hr⟩ := Option.isSome_iff_exists.mp hfound
  have hid : r.id = s.id := by simpa using List.find?_some hr
  exact ⟨r, by rw [IsFirst, hid, hr], hid⟩

/-- In a list that goes on with known ids, each id finds what it found before. -/
theorem find?_append_known (h : ∀ r ∈ more, r.id ∈ recipes.map (·.id)) (id : String) :
    (recipes ++ more).find? (fun r => r.id = id) = recipes.find? fun r => r.id = id := by
  rw [List.find?_append]
  cases hfound : recipes.find? fun r => r.id = id with
  | some r => rfl
  | none =>
      have hnone : more.find? (fun r => r.id = id) = none := by
        simp only [List.find?_eq_none, decide_eq_true_eq] at hfound ⊢
        intro s hs hid
        obtain ⟨r, hr, hsame⟩ := List.mem_map.mp (h s hs)
        exact hfound r hr (hsame.trans hid)
      rw [hnone]
      rfl

/-! ## repeated ids -/

theorem duplicateIds_go_append {seen : List String}
    (h : ∀ r ∈ more, r.id ∈ seen ∨ r.id ∈ recipes.map (·.id)) :
    duplicateIds.go seen (recipes ++ more) =
      duplicateIds.go seen recipes ++ more.map (·.id) := by
  induction recipes generalizing seen with
  | nil =>
      induction more with
      | nil => rfl
      | cons r more ih =>
          have hr : r.id ∈ seen := by simpa using h r List.mem_cons_self
          have hmore := ih fun s hs => h s (List.mem_cons_of_mem r hs)
          simp_all [duplicateIds.go]
  | cons s recipes ih =>
      -- an id that is seen already need not be noted again
      have hseen : ∀ r ∈ more, s.id ∈ seen → r.id ∈ seen ∨ r.id ∈ recipes.map (·.id) := by
        intro r hr hs
        rcases h r hr with hold | hnew
        · exact Or.inl hold
        · rcases List.mem_cons.mp hnew with hsame | hrest
          · exact Or.inl (hsame ▸ hs)
          · exact Or.inr hrest
      have hnoted : ∀ r ∈ more, r.id ∈ s.id :: seen ∨ r.id ∈ recipes.map (·.id) := by
        intro r hr
        have hknown := h r hr
        simp only [List.map_cons, List.mem_cons] at hknown ⊢
        tauto
      by_cases hs : s.id ∈ seen
      · simp [duplicateIds.go, hs, ih fun r hr => hseen r hr hs]
      · simp [duplicateIds.go, hs, ih hnoted]

/-- Recipes whose ids are known are all left out. -/
theorem duplicateIds_append (h : ∀ r ∈ more, r.id ∈ recipes.map (·.id)) :
    duplicateIds (recipes ++ more) = duplicateIds recipes ++ more.map (·.id) := by
  cases recipes with
  | nil =>
      have hnil : more = [] :=
        List.eq_nil_iff_forall_not_mem.mpr fun r hr => absurd (h r hr) List.not_mem_nil
      rw [hnil]
      rfl
  | cons s recipes => exact duplicateIds_go_append fun r hr => by simpa using h r hr

namespace Pool

variable {p q : Pool} {c : Course}

/-! ## looking up in a pool -/

theorem get?_eq_some_iff : p.get? id = some r ↔ r ∈ p.recipes ∧ r.id = id := by
  constructor
  · exact mem_of_get?
  · rintro ⟨hr, rfl⟩
    exact get?_of_mem hr

/-- Pools that find the same recipes are the same. -/
theorem eq_of_get? (h : ∀ id, p.get? id = q.get? id) : p = q := by
  have hnodup (p : Pool) : p.recipes.Nodup :=
    p.ascending.imp fun hlt heq => String.ne_of_lt hlt (congrArg Recipe.id heq)
  refine eq_of_perm ((List.perm_ext_iff_of_nodup (hnodup p) (hnodup q)).mpr fun r => ?_)
  have hfound (p : Pool) : r ∈ p.recipes ↔ p.get? r.id = some r := by simp [get?_eq_some_iff]
  rw [hfound, hfound, h]

/-- The id of a recipe of the pool stands once among the ids of its course, and nowhere else. -/
theorem count_idsOf (hr : r ∈ p.recipes) (c : Course) :
    (p.idsOf c).count r.id = if c = r.course then 1 else 0 := by
  split
  · next hc =>
      refine List.count_eq_one_of_mem (p.nodup_idsOf c) (mem_idsOf.mpr ⟨r, ?_, rfl⟩)
      exact mem_forCourse.mpr ⟨hr, hc.symm⟩
  · next hc =>
      refine List.count_eq_zero.mpr fun hid => hc ?_
      obtain ⟨s, hs, hsame⟩ := mem_idsOf.mp hid
      obtain ⟨hmem, rfl⟩ := mem_forCourse.mp hs
      have hfound := get?_of_mem hmem
      rw [hsame, get?_of_mem hr] at hfound
      rw [Option.some.inj hfound]

/-- Every recipe counts for one course. -/
theorem sum_count (p : Pool) : (Course.all.map p.count).sum = p.size := by
  unfold Pool.count forCourse size
  induction p.recipes with
  | nil => rfl
  | cons r l ih =>
      simp only [Course.all, List.map_cons, List.map_nil, List.sum_cons, List.sum_nil] at ih ⊢
      cases hc : r.course <;> simp [hc] <;> omega

/-! ## the recipes of a pool -/

theorem mem_ofRecipes : r ∈ (ofRecipes recipes).recipes ↔ IsFirst recipes r := by
  rw [IsFirst, ← get?_ofRecipes, get?_eq_some_iff, and_iff_left rfl]

theorem contains_ofRecipes :
    (ofRecipes recipes).contains id = true ↔ id ∈ recipes.map (·.id) := by
  rw [contains_iff, get?_ofRecipes, List.find?_isSome]
  simp

/-- The ids of a pool are those of the list, each once and in ascending order. -/
theorem map_id_ofRecipes (recipes : List Recipe) :
    (ofRecipes recipes).recipes.map (·.id) = (TextSet.ofList (recipes.map (·.id))).toList := by
  refine TextSet.eq_of_ascending (List.pairwise_map.mpr (ofRecipes recipes).ascending)
    (TextSet.ascending _) fun id => ?_
  have hin : id ∈ recipes.map (·.id) ↔ (ofRecipes recipes).contains id = true :=
    contains_ofRecipes.symm
  rw [← TextSet.mem_def, TextSet.mem_ofList, hin]
  simp [contains]

/-- A list that goes on with known ids makes the same pool. -/
theorem ofRecipes_append (h : ∀ r ∈ more, r.id ∈ recipes.map (·.id)) :
    ofRecipes (recipes ++ more) = ofRecipes recipes := by
  refine eq_of_get? fun id => ?_
  rw [get?_ofRecipes, get?_ofRecipes, find?_append_known h]

/-- The pool of any list of recipes.  The recipes of each course are in strictly ascending order
of ids.  Each id of the list stands once in the course of the first recipe that has it, which is
the recipe that the pool has, and in no other course; and no course has anything else.  The
courses together have as many recipes as the pool, one for each id.  Looking an id up, asking
whether the pool has it and searching the courses come to the same.  Further recipes with ids of
the list change nothing but the journal, which says of each that it is left out. -/
theorem contents_ofRecipes (recipes : List Recipe) :
    let pool := ofRecipes recipes
    (∀ c, (pool.forCourse c).Pairwise (·.id < ·.id)) ∧
    (∀ id ∈ recipes.map (·.id), ∃ r, IsFirst recipes r ∧ r.id = id ∧
      r ∈ pool.forCourse r.course ∧
      ∀ c, (pool.idsOf c).count id = if c = r.course then 1 else 0) ∧
    (∀ c, ∀ r ∈ pool.forCourse c, IsFirst recipes r ∧ r.course = c) ∧
    (Course.all.map pool.count).sum = pool.size ∧
    pool.size = (TextSet.ofList (recipes.map (·.id))).size ∧
    (∀ id, (∀ r, pool.get? id = some r ↔ r.id = id ∧ r ∈ pool.forCourse r.course) ∧
      (pool.contains id = true ↔ (pool.get? id).isSome = true) ∧
      (pool.contains id = true ↔ ∃ c, id ∈ pool.idsOf c)) ∧
    ∀ more : List Recipe, (∀ r ∈ more, r.id ∈ recipes.map (·.id)) →
      ofRecipes (recipes ++ more) = pool ∧
      ofRecipesEvents (recipes ++ more) =
        ofRecipesEvents recipes ++ more.map fun r => .duplicateIgnored r.id := by
  intro pool
  have hcourse (r : Recipe) : r ∈ pool.forCourse r.course ↔ r ∈ pool.recipes := by simp
  refine ⟨fun c => pool.ascending.filter _, fun id hid => ?_, fun c r hr => ?_, pool.sum_count,
    ?_, fun id => ⟨fun r => ?_, contains_iff, ?_⟩, fun more hmore => ⟨ofRecipes_append hmore, ?_⟩⟩
  · obtain ⟨r, hfirst, rfl⟩ := exists_isFirst hid
    have hr : r ∈ pool.recipes := mem_ofRecipes.mpr hfirst
    exact ⟨r, hfirst, rfl, (hcourse r).mpr hr, count_idsOf hr⟩
  · obtain ⟨hr, hc⟩ := mem_forCourse.mp hr
    exact ⟨mem_ofRecipes.mp hr, hc⟩
  · have hlength := congrArg List.length (map_id_ofRecipes recipes)
    rwa [List.length_map] at hlength
  · rw [get?_eq_some_iff, hcourse, and_comm]
  · simp only [contains, List.any_eq_true, decide_eq_true_eq, mem_idsOf, mem_forCourse]
    constructor
    · rintro ⟨r, hr, hid⟩
      exact ⟨r.course, r, ⟨hr, rfl⟩, hid⟩
    · rintro ⟨c, r, ⟨hr, -⟩, hid⟩
      exact ⟨r, hr, hid⟩
  · unfold ofRecipesEvents
    rw [duplicateIds_append hmore, List.map_append, List.map_map]
    rfl

/-- Of two recipes with the id `b` the first one counts, and a third one changes nothing. -/
theorem contents_ofRecipes_three :
    let recipes := [Recipe.plain .main "b", .plain .dessert "b", .plain .main "a"]
    let more := [Recipe.plain .side "a"]
    (∀ r ∈ more, r.id ∈ recipes.map (·.id)) ∧
      ofRecipes (recipes ++ more) = ofRecipes recipes ∧
      ofRecipesEvents (recipes ++ more) = ofRecipesEvents recipes ++ [.duplicateIgnored "a"] ∧
      ((ofRecipes recipes).idsOf .main, (ofRecipes recipes).idsOf .dessert) = (["a", "b"], []) := by
  intro recipes more
  have hmore : ∀ r ∈ more, r.id ∈ recipes.map (·.id) := by decide
  obtain ⟨-, -, -, -, -, -, hsame⟩ := contents_ofRecipes recipes
  exact ⟨hmore, (hsame more hmore).1, (hsame more hmore).2, by decide +kernel⟩

end Pool

end MealRota
