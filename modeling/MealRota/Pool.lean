import MealRota.Dietary
import MealRota.Journal

/-!
# MealRota.Pool

The recipes that a run may choose from.  A pool keeps at most one recipe per id
(the first one given) in ascending order of ids, so that every pass over it is
reproducible.

* `mem_insertById` — which recipes are in after an insertion;
* `Pool.get?`, `Pool.forCourse` — the views of a pool.
-/

namespace MealRota

/-! ## one recipe per id -/

/-- Insert a recipe in ascending order of ids, unless its id is there already. -/
def insertById (r : Recipe) : List Recipe → List Recipe
  | [] => [r]
  | s :: l =>
      if r.id < s.id then r :: s :: l
      else if r.id = s.id then s :: l
      else s :: insertById r l

theorem mem_of_mem_insertById {r x : Recipe} {l : List Recipe} (h : x ∈ insertById r l) :
    x = r ∨ x ∈ l := by
  induction l with
  | nil => simpa [insertById] using h
  | cons s l ih =>
      unfold insertById at h
      split at h
      · simpa using h
      · split at h
        · exact Or.inr h
        · rcases List.mem_cons.mp h with rfl | h
          · exact Or.inr List.mem_cons_self
          · exact (ih h).imp id (List.mem_cons_of_mem _)

theorem pairwise_insertById {r : Recipe} {l : List Recipe} (h : l.Pairwise (·.id < ·.id)) :
    (insertById r l).Pairwise (·.id < ·.id) := by
  induction l with
  | nil => exact List.pairwise_singleton _ _
  | cons s l ih =>
      rw [List.pairwise_cons] at h
      unfold insertById
      split
      · next hlt =>
          refine List.pairwise_cons.mpr ⟨?_, List.pairwise_cons.mpr h⟩
          intro y hy
          rcases List.mem_cons.mp hy with rfl | hy
          · exact hlt
          · exact String.lt_trans hlt (h.1 y hy)
      · next hlt =>
          split
          · exact List.pairwise_cons.mpr h
          · next hne =>
              refine List.pairwise_cons.mpr ⟨?_, ih h.2⟩
              intro y hy
              rcases mem_of_mem_insertById hy with rfl | hy
              · rcases Decidable.em (s.id < y.id) with hs | hs
                · exact hs
                · exact absurd (String.le_antisymm (String.not_lt.mp hs) (String.not_lt.mp hlt)) hne
              · exact h.1 y hy

/-- The ids of the recipes that come after another recipe of the same id. -/
def duplicateIds : List Recipe → List String
  | [] => []
  | r :: l => go [r.id] l
where
  /-- The repeated ids of the rest, `seen` being the ids so far. -/
  go (seen : List String) : List Recipe → List String
  | [] => []
  | r :: l => if seen.contains r.id then r.id :: go seen l else go (r.id :: seen) l

/-! ## pools -/

/-- The recipes to choose from, in strictly ascending order of ids. -/
structure Pool where
  recipes : List Recipe
  ascending : recipes.Pairwise (·.id < ·.id)

namespace Pool

/-- The pool without recipes. -/
def empty : Pool := ⟨[], List.Pairwise.nil⟩

instance : Inhabited Pool := ⟨empty⟩

/-- The pool with one more recipe, unless its id is there already. -/
def add (p : Pool) (r : Recipe) : Pool := ⟨insertById r p.recipes, pairwise_insertById p.ascending⟩

/-- The pool of a list of recipes; of recipes that share an id the first is kept. -/
def ofRecipes (recipes : List Recipe) : Pool := recipes.foldl add empty

/-- The recipes of a course, in ascending order of ids. -/
def forCourse (p : Pool) (c : Course) : List Recipe := p.recipes.filter fun r => r.course = c

/-- How many recipes a course has. -/
def count (p : Pool) (c : Course) : Nat := (p.forCourse c).length

/-- How many recipes the pool has. -/
def size (p : Pool) : Nat := p.recipes.length

/-- The recipe of that id. -/
def get? (p : Pool) (id : String) : Option Recipe := p.recipes.find? fun r => r.id = id

/-- Whether the pool has a recipe of that id. -/
def contains (p : Pool) (id : String) : Bool := p.recipes.any fun r => r.id = id

/-- The side dishes that suit a main course. -/
def sidesFor (p : Pool) (main : Recipe) : List Recipe :=
  if !main.takesSide then []
  else if main.preferredSides.isEmpty then p.forCourse .side
  else (p.forCourse .side).filter fun r =>
    match r.sideCategory with
    | some category => main.preferredSides.contains category
    | none => false

/-- The recipes that meet the dietary restrictions of the preferences. -/
def eligible (recipes : List Recipe) (prefs : Preferences) : List Recipe :=
  filterByDiet recipes prefs.restrictions.toList prefs.mode

/-- The pool of the recipes that meet the dietary restrictions. -/
def ofEligible (recipes : List Recipe) (prefs : Preferences) : Pool :=
  ofRecipes (eligible recipes prefs)

/-- What the journal says when a pool is built from a list of recipes. -/
def ofRecipesEvents (recipes : List Recipe) : List Event :=
  (duplicateIds recipes).map .duplicateIgnored

/-- What the journal says when a pool is built by the dietary restrictions. -/
def ofEligibleEvents (recipes : List Recipe) (prefs : Preferences) : List Event :=
  .dietApplied recipes.length (eligible recipes prefs).length prefs.restrictions.toList prefs.mode
    :: ofRecipesEvents (eligible recipes prefs)

end Pool

end MealRota
