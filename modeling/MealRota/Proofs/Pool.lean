import MealRota.Pool
import MealRota.Rotation.Basic

/-!
# MealRota.Proofs.Pool

The views of a pool: which recipes a course has, that an id names one of them,
and when all of them were used in the current cycle.
-/

namespace MealRota

namespace Pool

variable {p : Pool} {r main : Recipe} {c : Course}

@[simp] theorem mem_forCourse : r ∈ p.forCourse c ↔ r ∈ p.recipes ∧ r.course = c := by
  simp [forCourse]

/-- A pool has no recipes but those that it was made of. -/
theorem mem_of_mem_ofRecipes {recipes : List Recipe} (h : r ∈ (ofRecipes recipes).recipes) :
    r ∈ recipes := by
  have go : ∀ (l : List Recipe) (p : Pool), r ∈ (l.foldl add p).recipes →
      r ∈ p.recipes ∨ r ∈ l := by
    intro l
    induction l with
    | nil => exact fun p hp => Or.inl hp
    | cons a l ih =>
        intro p hp
        rcases ih (p.add a) hp with hadd | hl
        · rcases mem_of_mem_insertById hadd with rfl | hp
          · exact Or.inr List.mem_cons_self
          · exact Or.inl hp
        · exact Or.inr (List.mem_cons_of_mem _ hl)
  exact (go recipes empty h).resolve_left List.not_mem_nil

/-- The ids of a course's recipes, in ascending order. -/
def idsOf (p : Pool) (c : Course) : List String := (p.forCourse c).map (·.id)

theorem mem_idsOf {id : String} : id ∈ p.idsOf c ↔ ∃ r ∈ p.forCourse c, r.id = id := by
  simp [idsOf]

@[simp] theorem length_idsOf (p : Pool) (c : Course) : (p.idsOf c).length = p.count c := by
  simp [idsOf, count]

/-- No two recipes of a course share an id. -/
theorem nodup_idsOf (p : Pool) (c : Course) : (p.idsOf c).Nodup := by
  have hlt : ((p.forCourse c).map (·.id)).Pairwise (· < ·) :=
    List.pairwise_map.mpr (p.ascending.filter _)
  exact hlt.imp fun h => String.ne_of_lt h

/-- An id names the recipe of the pool that has it. -/
theorem get?_of_mem (h : r ∈ p.recipes) : p.get? r.id = some r := by
  have hne : p.recipes.Pairwise (fun a b => a.id ≠ b.id) :=
    p.ascending.imp fun h => String.ne_of_lt h
  unfold get?
  revert h hne
  induction p.recipes with
  | nil => intro h; exact absurd h List.not_mem_nil
  | cons a l ih =>
      intro h hne
      rw [List.pairwise_cons] at hne
      rcases List.mem_cons.mp h with rfl | h
      · simp
      · rw [List.find?_cons_of_neg (by simpa using hne.1 r h)]
        exact ih h hne.2

/-- What an id names is a recipe of the pool that has it. -/
theorem mem_of_get? {id : String} (h : p.get? id = some r) : r ∈ p.recipes ∧ r.id = id := by
  unfold get? at h
  exact ⟨List.mem_of_find?_eq_some h, by simpa using List.find?_some h⟩

/-- The side dishes that suit a main course are side dishes of the pool. -/
theorem mem_forCourse_of_mem_sidesFor (h : r ∈ p.sidesFor main) : r ∈ p.forCourse .side := by
  unfold sidesFor at h
  split at h
  · exact absurd h List.not_mem_nil
  · split at h
    · exact h
    · exact (List.mem_filter.mp h).1

/-! ## when a course is used up -/

/-- Every recipe of the course was used in the current cycle. -/
def Exhausted (p : Pool) (t : Rotation) (c : Course) : Prop :=
  ∀ r ∈ p.forCourse c, t.isUsed c r.id = true

instance (p : Pool) (t : Rotation) (c : Course) : Decidable (p.Exhausted t c) :=
  inferInstanceAs (Decidable (∀ r ∈ p.forCourse c, t.isUsed c r.id = true))

theorem exhausted_iff {t : Rotation} :
    p.Exhausted t c ↔ ∀ id ∈ p.idsOf c, t.isUsed c id = true := by
  constructor
  · intro h id hid
    obtain ⟨r, hr, rfl⟩ := mem_idsOf.mp hid
    exact h r hr
  · intro h r hr
    exact h r.id (mem_idsOf.mpr ⟨r, hr, rfl⟩)

end Pool

/-! ## plain recipes -/

/-- A recipe of which no more is known than its id and its course; it demands nothing. -/
def Recipe.plain (c : Course) (id : String) : Recipe where
  id
  title := id
  course := c
  ingredients := 0
  steps := 0
  prepMinutes := none
  cookMinutes := none
  advanceHours := none
  complexity := some 0
  tags := TextSet.empty
  cuisine := .other
  takesSide := false
  preferredSides := []
  sideCategory := none

/-! ## marks -/

namespace Rotation

@[simp] theorem isUsed_mark {t : Rotation} {c d : Course} {id x : String} :
    (t.mark c id).isUsed d x = true ↔ t.isUsed d x = true ∨ (d = c ∧ x = id) := by
  simp only [isUsed, usedIds_mark, TextSet.contains_iff]
  by_cases h : c = d
  · subst h
    simp [or_comm]
  · simp [h, Ne.symm h]

@[simp] theorem isUsed_reset {t : Rotation} {c d : Course} {x : String} :
    (t.reset c).isUsed d x = true ↔ d ≠ c ∧ t.isUsed d x = true := by
  simp only [isUsed, usedIds_reset, TextSet.contains_iff]
  by_cases h : c = d
  · subst h
    simp
  · simp [h, Ne.symm h]

@[simp] theorem isUsed_countServing (t : Rotation) (k : Cuisine) (d : Course) (x : String) :
    (t.countServing k).isUsed d x = t.isUsed d x := rfl

theorem isUsed_iff_mem {t : Rotation} {c : Course} {x : String} :
    t.isUsed c x = true ↔ x ∈ t.usedIds c := TextSet.contains_iff

end Rotation

end MealRota
