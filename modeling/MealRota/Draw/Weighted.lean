/-!
# MealRota.Draw.Weighted

Drawing one of several weighted options.  The options lie side by side on a line,
each as long as its weight; the one on which a point falls is drawn.  A point
beyond the last weight falls on the last option, so that rounding never leaves
the list.

* `mem_of_pickAt` — what is drawn is one of the options;
* `pickAt_isSome` — something is drawn unless there are no options.
-/

namespace MealRota

variable {α : Type _}

/-- The total of the weights, added from left to right. -/
def totalWeight (options : List (Float × α)) : Float :=
  options.foldl (fun sum o => sum + o.1) 0

/-- The option on which `point` falls, the options beginning at `start`. -/
def pickAt (point : Float) (start : Float) : List (Float × α) → Option α
  | [] => none
  | [(_, a)] => some a
  | (w, a) :: l => if point < start + w then some a else pickAt point (start + w) l

theorem mem_of_pickAt {point start : Float} {l : List (Float × α)} {a : α}
    (h : pickAt point start l = some a) : ∃ w, (w, a) ∈ l := by
  induction l generalizing start with
  | nil => cases h
  | cons o l ih =>
      obtain ⟨w, b⟩ := o
      cases l with
      | nil =>
          cases h
          exact ⟨w, List.mem_cons_self⟩
      | cons o' l =>
          rw [pickAt] at h
          · split at h
            · cases h
              exact ⟨w, List.mem_cons_self⟩
            · obtain ⟨w', hw'⟩ := ih h
              exact ⟨w', List.mem_cons_of_mem _ hw'⟩
          · simp

theorem pickAt_isSome {point start : Float} {l : List (Float × α)} (h : l ≠ []) :
    (pickAt point start l).isSome := by
  induction l generalizing start with
  | nil => exact absurd rfl h
  | cons o l ih =>
      obtain ⟨w, b⟩ := o
      cases l with
      | nil => rfl
      | cons o' l =>
          rw [pickAt]
          · split
            · rfl
            · exact ih (by simp)
          · simp

end MealRota
