/-!
# MealRota.Order.TextSet

Finite sets of texts.  A set is kept as its strictly ascending list of members
in code-point order, so two sets with the same members are the same value and
the list is at once the order in which members are written out.

* `mem_insert`, `mem_erase`, `mem_union`, `mem_ofList` — membership after each operation;
* `ext` — a set is determined by its members.
-/

namespace MealRota

/-- A finite set of texts, kept as a strictly ascending list. -/
structure TextSet where
  toList : List String
  ascending : toList.Pairwise (· < ·)
  deriving DecidableEq

namespace TextSet

/-- The set without members. -/
def empty : TextSet := ⟨[], List.Pairwise.nil⟩

instance : Inhabited TextSet := ⟨empty⟩

instance : Membership String TextSet := ⟨fun s a => a ∈ s.toList⟩

theorem mem_def {a : String} {s : TextSet} : a ∈ s ↔ a ∈ s.toList := Iff.rfl

instance (a : String) (s : TextSet) : Decidable (a ∈ s) :=
  inferInstanceAs (Decidable (a ∈ s.toList))

/-- Whether `a` is a member. -/
def contains (s : TextSet) (a : String) : Bool := decide (a ∈ s)

@[simp] theorem contains_iff {s : TextSet} {a : String} : s.contains a = true ↔ a ∈ s := by
  simp [contains]

/-- How many members the set has. -/
def size (s : TextSet) : Nat := s.toList.length

/-- Whether the set has no member. -/
def isEmpty (s : TextSet) : Bool := s.toList.isEmpty

/-! ## adding a member -/

/-- Insertion into an ascending list; a text that is there already stays once. -/
def insertList (a : String) : List String → List String
  | [] => [a]
  | b :: l => if a < b then a :: b :: l else if a = b then b :: l else b :: insertList a l

theorem mem_insertList {a x : String} {l : List String} :
    x ∈ insertList a l ↔ x = a ∨ x ∈ l := by
  induction l with
  | nil => simp [insertList]
  | cons b l ih =>
      unfold insertList
      split
      · simp
      · split
        · next h => subst h; simp
        · simp [ih, or_left_comm]

theorem pairwise_insertList {a : String} {l : List String} (h : l.Pairwise (· < ·)) :
    (insertList a l).Pairwise (· < ·) := by
  induction l with
  | nil => simp [insertList]
  | cons b l ih =>
      rw [List.pairwise_cons] at h
      unfold insertList
      split
      · next hab =>
          refine List.pairwise_cons.mpr ⟨?_, List.pairwise_cons.mpr h⟩
          intro y hy
          rcases List.mem_cons.mp hy with rfl | hy
          · exact hab
          · exact String.lt_trans hab (h.1 y hy)
      · next hab =>
          split
          · exact List.pairwise_cons.mpr h
          · next hne =>
              refine List.pairwise_cons.mpr ⟨?_, ih h.2⟩
              intro y hy
              rcases mem_insertList.mp hy with rfl | hy
              · rcases Decidable.em (b < y) with hlt | hlt
                · exact hlt
                · exact absurd (String.le_antisymm (String.not_lt.mp hlt) (String.not_lt.mp hab)) hne
              · exact h.1 y hy

/-- The set with `a` as a member. -/
def insert (s : TextSet) (a : String) : TextSet :=
  ⟨insertList a s.toList, pairwise_insertList s.ascending⟩

@[simp] theorem mem_insert {s : TextSet} {a x : String} : x ∈ s.insert a ↔ x = a ∨ x ∈ s :=
  mem_insertList

/-! ## removing a member -/

/-- The set without `a`. -/
def erase (s : TextSet) (a : String) : TextSet :=
  ⟨s.toList.filter (fun b => b != a), s.ascending.filter _⟩

@[simp] theorem mem_erase {s : TextSet} {a x : String} : x ∈ s.erase a ↔ x ∈ s ∧ x ≠ a := by
  simp [mem_def, erase]

/-! ## sets from lists, and unions -/

/-- The set of the members of a list. -/
def ofList (l : List String) : TextSet := l.foldl insert empty

theorem mem_foldl_insert {l : List String} {s : TextSet} {x : String} :
    x ∈ l.foldl insert s ↔ x ∈ s ∨ x ∈ l := by
  induction l generalizing s with
  | nil => simp
  | cons a l ih => simp [ih, or_assoc, or_left_comm]

@[simp] theorem not_mem_empty {x : String} : ¬ x ∈ empty := by simp [mem_def, empty]

@[simp] theorem mem_ofList {l : List String} {x : String} : x ∈ ofList l ↔ x ∈ l := by
  simp [ofList, mem_foldl_insert]

/-- The members of either set. -/
def union (s t : TextSet) : TextSet := t.toList.foldl insert s

@[simp] theorem mem_union {s t : TextSet} {x : String} : x ∈ s.union t ↔ x ∈ s ∨ x ∈ t :=
  mem_foldl_insert

/-- Whether every member of `s` is one of `t`. -/
def isSubset (s t : TextSet) : Bool := s.toList.all t.contains

@[simp] theorem isSubset_iff {s t : TextSet} : s.isSubset t = true ↔ ∀ x ∈ s, x ∈ t := by
  simp [isSubset, mem_def]

/-- Whether the two sets share a member. -/
def meets (s t : TextSet) : Bool := s.toList.any t.contains

@[simp] theorem meets_iff {s t : TextSet} : s.meets t = true ↔ ∃ x ∈ s, x ∈ t := by
  simp [meets, mem_def]

/-! ## extensionality -/

theorem eq_of_ascending {l m : List String} (hl : l.Pairwise (· < ·)) (hm : m.Pairwise (· < ·))
    (h : ∀ x, x ∈ l ↔ x ∈ m) : l = m := by
  induction l generalizing m with
  | nil =>
      cases m with
      | nil => rfl
      | cons b m => exact absurd ((h b).mpr List.mem_cons_self) List.not_mem_nil
  | cons a l ih =>
      cases m with
      | nil => exact absurd ((h a).mp List.mem_cons_self) List.not_mem_nil
      | cons b m =>
          rw [List.pairwise_cons] at hl hm
          have hab : a = b := by
            rcases List.mem_cons.mp ((h a).mp List.mem_cons_self) with e | ha
            · exact e
            · rcases List.mem_cons.mp ((h b).mpr List.mem_cons_self) with e | hb
              · exact e.symm
              · exact absurd (hm.1 a ha) (String.lt_asymm (hl.1 b hb))
          subst hab
          refine congrArg _ (ih hl.2 hm.2 fun x => ?_)
          constructor
          · intro hx
            rcases List.mem_cons.mp ((h x).mp (List.mem_cons_of_mem _ hx)) with e | hx'
            · exact absurd (hl.1 x hx) (e ▸ String.lt_irrefl _)
            · exact hx'
          · intro hx
            rcases List.mem_cons.mp ((h x).mpr (List.mem_cons_of_mem _ hx)) with e | hx'
            · exact absurd (hm.1 x hx) (e ▸ String.lt_irrefl _)
            · exact hx'

/-- A set is determined by its members. -/
theorem ext {s t : TextSet} (h : ∀ x, x ∈ s ↔ x ∈ t) : s = t := by
  obtain ⟨l, hl⟩ := s
  obtain ⟨m, hm⟩ := t
  have : l = m := eq_of_ascending hl hm h
  subst this
  rfl

end TextSet

end MealRota
