/-!
# MealRota.Order.Insertion

Ordered insertion into a list and the stable sort built from it.  Both are
structural, so closed instances evaluate by computation.
-/

namespace MealRota

variable {α : Type _}

/-- Put `a` in front of the first element that it may precede. -/
def orderedInsert (le : α → α → Bool) (a : α) : List α → List α
  | [] => [a]
  | b :: l => if le a b then a :: b :: l else b :: orderedInsert le a l

/-- The stable sort: each element is inserted into the sorted rest. -/
def sortBy (le : α → α → Bool) : List α → List α
  | [] => []
  | a :: l => orderedInsert le a (sortBy le l)

end MealRota
