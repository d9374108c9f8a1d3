import Mathlib.Data.List.Sort
import MealRota.Order.Insertion

/-!
# MealRota.Proofs.Sorting

The stable sort is `List.insertionSort` with a test in place of a relation, and so rearranges a
list.  The other lemmas need more than the library has: scores are doubles, and the order of doubles
is total and transitive on the lists that are sorted, not on all doubles.

* `sortBy_eq_insertionSort`, `perm_sortBy` — the sort of the library, a rearrangement;
* `pairwise_sortBy` — where the order is total and transitive on the list, the result is sorted;
* `map_sortBy` — elements that the order does not tell apart keep their input order;
* `foldl_earlier` — a single pass finds the first of the result.
-/

namespace MealRota

variable {α : Type _}

/-! ## the sort of the library -/

theorem orderedInsert_eq (le : α → α → Bool) (a : α) (l : List α) :
    orderedInsert le a l = l.orderedInsert (le · ·) a := by
  induction l with
  | nil => rfl
  | cons b l ih => rw [orderedInsert, ih, List.orderedInsert_cons]

theorem sortBy_eq_insertionSort (le : α → α → Bool) (l : List α) :
    sortBy le l = l.insertionSort (le · ·) := by
  induction l with
  | nil => rfl
  | cons a l ih => rw [sortBy, ih, orderedInsert_eq, List.insertionSort_cons]

theorem perm_sortBy (le : α → α → Bool) (l : List α) : (sortBy le l).Perm l :=
  sortBy_eq_insertionSort le l ▸ List.perm_insertionSort _ l

theorem sortBy_eq_nil_iff {le : α → α → Bool} {l : List α} : sortBy le l = [] ↔ l = [] := by
  rw [← List.perm_nil, (perm_sortBy le l).congr_left, List.perm_nil]

/-! ## the result is sorted -/

theorem pairwise_orderedInsert {le : α → α → Bool} {a : α} {l : List α}
    (total : ∀ b ∈ l, le a b = true ∨ le b a = true)
    (trans : ∀ b ∈ l, ∀ c ∈ l, le a b = true → le b c = true → le a c = true)
    (h : l.Pairwise (fun x y => le x y = true)) :
    (orderedInsert le a l).Pairwise (fun x y => le x y = true) := by
  induction l with
  | nil => exact List.pairwise_singleton _ _
  | cons b l ih =>
      rw [List.pairwise_cons] at h
      unfold orderedInsert
      split
      · next hab =>
          refine List.pairwise_cons.mpr ⟨?_, List.pairwise_cons.mpr h⟩
          intro y hy
          rcases List.mem_cons.mp hy with rfl | hl
          · exact hab
          · exact trans b List.mem_cons_self y hy hab (h.1 y hl)
      · next hab =>
          have hrest := ih (fun c hc => total c (List.mem_cons_of_mem _ hc))
            (fun c hc d hd => trans c (List.mem_cons_of_mem _ hc) d (List.mem_cons_of_mem _ hd)) h.2
          refine List.pairwise_cons.mpr ⟨?_, hrest⟩
          intro y hy
          rw [orderedInsert_eq, List.mem_orderedInsert] at hy
          rcases hy with rfl | hy
          · exact (total b List.mem_cons_self).resolve_left hab
          · exact h.1 y hy

/-- Of an order no more is asked than that it is total and transitive on the list. -/
theorem pairwise_sortBy {le : α → α → Bool} {l : List α}
    (total : l.Pairwise fun a b => le a b = true ∨ le b a = true)
    (trans : ∀ a ∈ l, ∀ b ∈ l, ∀ c ∈ l, le a b = true → le b c = true → le a c = true) :
    (sortBy le l).Pairwise (fun x y => le x y = true) := by
  induction l with
  | nil => exact List.Pairwise.nil
  | cons a l ih =>
      rw [List.pairwise_cons] at total
      have hin : ∀ b ∈ l, b ∈ a :: l := fun b hb => List.mem_cons_of_mem a hb
      have hmem : ∀ b, b ∈ sortBy le l → b ∈ l := fun b => (perm_sortBy le l).mem_iff.mp
      have hrest := ih total.2 fun b hb c hc d hd => trans b (hin b hb) c (hin c hc) d (hin d hd)
      refine pairwise_orderedInsert (fun b hb => total.1 b (hmem b hb)) ?_ hrest
      intro b hb c hc
      exact trans a List.mem_cons_self b (hin b (hmem b hb)) c (hin c (hmem c hc))

/-! ## the sort is stable -/

section

variable {β : Type _} {f : α → β} {le : β → β → Bool} {le' : α → α → Bool} {l : List α}

theorem map_orderedInsert {a : α} (h : ∀ b ∈ l, le' a b = le (f a) (f b)) :
    (orderedInsert le' a l).map f = orderedInsert le (f a) (l.map f) := by
  induction l with
  | nil => rfl
  | cons b l ih =>
      rw [List.forall_mem_cons] at h
      rw [orderedInsert, List.map_cons, orderedInsert, h.1]
      split
      · rfl
      · rw [List.map_cons, ih h.2]

/-- An order that knows more than another, the input order for one, sorts a list in the same way
if the two agree wherever an element is compared with a later one. -/
theorem map_sortBy (h : l.Pairwise fun a b => le' a b = le (f a) (f b)) :
    (sortBy le' l).map f = sortBy le (l.map f) := by
  induction l with
  | nil => rfl
  | cons a l ih =>
      rw [List.pairwise_cons] at h
      rw [sortBy, map_orderedInsert fun b hb => h.1 b ((perm_sortBy le' l).mem_iff.mp hb), ih h.2]
      rfl

end

/-! ## the first of the result -/

/-- The one of two elements that comes first in the sorted list. -/
def earlier (le : α → α → Bool) (a b : α) : α := if le a b then a else b

theorem head?_orderedInsert (le : α → α → Bool) (a : α) (l : List α) :
    (orderedInsert le a l).head? = some ((l.head?.map (earlier le a)).getD a) := by
  cases l with
  | nil => rfl
  | cons b l =>
      unfold orderedInsert
      simp only [List.head?_cons, Option.map_some, Option.getD_some, earlier]
      split <;> rfl

theorem earlier_assoc {le : α → α → Bool} {a b c : α} (total : le b c = true ∨ le c b = true)
    (trans : le a b = true → le b c = true → le a c = true)
    (trans' : le a c = true → le c b = true → le a b = true) :
    earlier le (earlier le a b) c = earlier le a (earlier le b c) := by
  unfold earlier
  grind

/-- Comparing the elements one after the other finds the first of the sorted list. -/
theorem foldl_earlier {le : α → α → Bool} {a : α} {l : List α}
    (total : l.Pairwise fun a b => le a b = true ∨ le b a = true)
    (trans : ∀ b ∈ a :: l, ∀ c ∈ l, ∀ d ∈ l, le b c = true → le c d = true → le b d = true) :
    l.foldl (earlier le) a = ((sortBy le l).head?.map (earlier le a)).getD a := by
  induction l generalizing a with
  | nil => rfl
  | cons b l ih =>
      rw [List.pairwise_cons] at total
      have hfirst : earlier le a b ∈ a :: b :: l := by
        unfold earlier
        split <;> simp
      have hrest := ih (a := earlier le a b) total.2 fun c hc d hd e he =>
        trans c (by grind) d (by grind) e (by grind)
      rw [List.foldl_cons, hrest, sortBy, head?_orderedInsert]
      cases hfound : (sortBy le l).head? with
      | none => rfl
      | some c =>
          have hc : c ∈ l := (perm_sortBy le l).mem_iff.mp (List.mem_of_mem_head? hfound)
          exact earlier_assoc (total.1 c hc) (trans a (by simp) b (by simp) c (by simp [hc]))
            (trans a (by simp) c (by simp [hc]) b (by simp))

end MealRota
