import MealRota.Error
import MealRota.Order.Table
import MealRota.Order.TextSet

/-!
# MealRota.Rotation.Basic

The rotation state: which recipes were used in the current cycle of each course,
how often each cuisine was served, and how complex the last assignment was.  It
is carried from one planning run to the next.

A course that was never touched has no set of used recipes; one that was emptied
has an empty set.  The cycle number rises by one with every reset.
-/

namespace MealRota

/-- What is remembered from one assignment to the next. -/
structure Rotation where
  cycle : Nat
  used : Table Course TextSet
  servings : Table Cuisine Nat
  /-- The complexity score of the most recent assignment. -/
  lastComplexity : Option Float
  deriving DecidableEq

namespace Rotation

/-- The state before anything was planned. -/
def fresh : Rotation := ⟨1, Table.empty, Table.empty, none⟩

instance : Inhabited Rotation := ⟨fresh⟩

/-! ## used recipes -/

/-- The recipes of a course used in the current cycle. -/
def usedIds (t : Rotation) (c : Course) : TextSet := (t.used.get? c).getD TextSet.empty

/-- Whether a recipe of a course was used in the current cycle. -/
def isUsed (t : Rotation) (c : Course) (id : String) : Bool := (t.usedIds c).contains id

/-- Mark a recipe as used. -/
def mark (t : Rotation) (c : Course) (id : String) : Rotation :=
  { t with used := t.used.set c ((t.usedIds c).insert id) }

/-- Give a used recipe back. -/
def unmark (t : Rotation) (c : Course) (id : String) : Except PlanError Rotation :=
  if t.isUsed c id then .ok { t with used := t.used.set c ((t.usedIds c).erase id) }
  else .error (PlanError.notMarked id t.cycle).raised

/-- Give a recipe back if it is marked as used. -/
def release (t : Rotation) (c : Course) (id : String) : Rotation :=
  if t.isUsed c id then { t with used := t.used.set c ((t.usedIds c).erase id) } else t

/-- How many recipes of a course were used in the current cycle. -/
def usedCount (t : Rotation) (c : Course) : Nat := (t.usedIds c).size

/-- How many recipes of any course were used in the current cycle. -/
def totalUsed (t : Rotation) : Nat := t.used.entries.foldl (fun n p => n + p.2.size) 0

/-- Begin a new cycle for a course: none of its recipes counts as used any more. -/
def reset (t : Rotation) (c : Course) : Rotation :=
  { t with cycle := t.cycle + 1, used := t.used.set c TextSet.empty }

/-! ## servings of cuisines -/

/-- How often a cuisine was served. -/
def servingsOf (t : Rotation) (k : Cuisine) : Nat := (t.servings.get? k).getD 0

/-- Count one more serving. -/
def countServing (t : Rotation) (k : Cuisine) : Rotation :=
  { t with servings := t.servings.set k (t.servingsOf k + 1) }

/-- Take back one serving; the last one takes the cuisine's entry with it. -/
def discountServing (t : Rotation) (k : Cuisine) : Rotation :=
  if 1 < t.servingsOf k then { t with servings := t.servings.set k (t.servingsOf k - 1) }
  else { t with servings := t.servings.erase k }

/-! ## laws of the view -/

@[simp] theorem usedIds_mark (t : Rotation) (c d : Course) (id : String) :
    (t.mark c id).usedIds d = if c = d then (t.usedIds c).insert id else t.usedIds d := by
  unfold usedIds mark
  by_cases h : c = d <;> simp [h, usedIds]

@[simp] theorem usedIds_reset (t : Rotation) (c d : Course) :
    (t.reset c).usedIds d = if c = d then TextSet.empty else t.usedIds d := by
  unfold usedIds reset
  by_cases h : c = d <;> simp [h]

@[simp] theorem cycle_reset (t : Rotation) (c : Course) : (t.reset c).cycle = t.cycle + 1 := rfl

@[simp] theorem servingsOf_countServing (t : Rotation) (j k : Cuisine) :
    (t.countServing j).servingsOf k = t.servingsOf k + if j = k then 1 else 0 := by
  unfold servingsOf countServing
  by_cases h : j = k <;> simp [h, servingsOf]

@[simp] theorem servingsOf_discountServing (t : Rotation) (j k : Cuisine) :
    (t.discountServing j).servingsOf k = t.servingsOf k - if j = k then 1 else 0 := by
  unfold discountServing
  split
  · by_cases h : j = k <;> simp [h, servingsOf]
  · next hle =>
      by_cases h : j = k
      · subst h
        simp only [servingsOf, Table.get?_erase] at *
        simp
        omega
      · simp [h, servingsOf]

end Rotation

end MealRota
