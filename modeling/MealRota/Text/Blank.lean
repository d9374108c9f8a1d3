import MealRota.Text.Ranges

/-!
# MealRota.Text.Blank

Blank characters and trimming.  A blank is a character of Unicode's white-space
property or one of the four information separators U+001C to U+001F.

* `head_dropEnds`, `last_dropEnds` — trimming leaves no blank at either end;
* `dropEnds_eq_self` — where there is none, it changes nothing.
-/

namespace MealRota.Text

/-- The white-space property of Unicode. -/
def whiteSpaceRanges : List (Nat × Nat) :=
  [(0x9, 0xD), (0x20, 0x20), (0x85, 0x85), (0xA0, 0xA0), (0x1680, 0x1680), (0x2000, 0x200A),
   (0x2028, 0x2029), (0x202F, 0x202F), (0x205F, 0x205F), (0x3000, 0x3000)]

/-- Whether a character is white space. -/
def isWhiteSpace (c : Char) : Bool := inRanges whiteSpaceRanges c

/-- Whether a character is blank: white space or an information separator. -/
def isBlank (c : Char) : Bool := isWhiteSpace c || inRanges [(0x1C, 0x1F)] c

/-- The list without its longest tail of elements that satisfy `p`. -/
def dropTail {α : Type _} (p : α → Bool) (l : List α) : List α :=
  (l.reverse.dropWhile p).reverse

/-- The list without the elements at either end that satisfy `p`. -/
def dropEnds {α : Type _} (p : α → Bool) (l : List α) : List α := dropTail p (l.dropWhile p)

/-- The text without blanks at either end. -/
def trim (s : String) : String := String.ofList (dropEnds isBlank s.toList)

/-! ## both ends of a trimmed text -/

variable {α : Type _} {p : α → Bool}

theorem dropWhile_eq_self_iff_head {l : List α} :
    l.dropWhile p = l ↔ ∀ a, l.head? = some a → p a = false := by
  cases l with
  | nil => simp
  | cons a l =>
      cases h : p a with
      | false => simp [h]
      | true =>
          refine iff_of_false ?_ (by simp [h])
          intro e
          rw [List.dropWhile_cons, if_pos h] at e
          have := congrArg List.length e
          have := (List.dropWhile_sublist (l := l) p).length_le
          simp only [List.length_cons] at *
          omega

theorem head_dropWhile {l : List α} {a : α} (h : (l.dropWhile p).head? = some a) :
    p a = false := by
  induction l with
  | nil => simp at h
  | cons b l ih =>
      cases hb : p b with
      | false => simp_all
      | true => simp_all

theorem head_dropTail {l : List α} (h : ∀ a, l.head? = some a → p a = false) :
    ∀ a, (dropTail p l).head? = some a → p a = false := by
  intro a ha
  unfold dropTail at ha
  rw [List.head?_reverse] at ha
  cases l with
  | nil => simp at ha
  | cons b l =>
      have hb : p b = false := h b rfl
      rw [List.reverse_cons, List.dropWhile_append] at ha
      split at ha
      · simp [hb] at ha
        exact ha ▸ hb
      · simp at ha
        exact ha ▸ hb

/-- Nothing is dropped from a list whose ends are kept. -/
theorem dropEnds_eq_self {l : List α} (h : ∀ a, l.head? = some a → p a = false)
    (t : ∀ a, l.getLast? = some a → p a = false) : dropEnds p l = l := by
  unfold dropEnds dropTail
  rw [dropWhile_eq_self_iff_head.mpr h,
    dropWhile_eq_self_iff_head.mpr (by rw [List.head?_reverse]; exact t), List.reverse_reverse]

theorem head_dropEnds {l : List α} : ∀ a, (dropEnds p l).head? = some a → p a = false :=
  head_dropTail fun _ h => head_dropWhile h

theorem last_dropEnds {l : List α} : ∀ a, (dropEnds p l).getLast? = some a → p a = false := by
  intro a ha
  unfold dropEnds dropTail at ha
  rw [List.getLast?_reverse] at ha
  exact head_dropWhile ha

end MealRota.Text
