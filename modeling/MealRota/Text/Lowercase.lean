import MealRota.Text.Ranges
import MealRota.Text.Lowercase.Table

/-!
# MealRota.Text.Lowercase

Full lower case.  Every capital becomes its small letter by the simple mapping
of Unicode, with two exceptions: the capital dotted i becomes an `i` and a
combining dot, and a capital sigma becomes the final small sigma where it ends
a word.  A sigma ends a word if a cased character comes before it and none
after it, looking past the characters that case rules ignore.
-/

namespace MealRota.Text

/-- Whether a character has case. -/
def isCased (c : Char) : Bool := inRanges casedRanges c

/-- Whether case rules look past a character. -/
def isCaseIgnorable (c : Char) : Bool := inRanges caseIgnorableRanges c

/-- Whether a run of capitals contains a code point. -/
def CaseRun.contains (r : CaseRun) (n : Nat) : Bool :=
  decide (r.first ≤ n) && decide (n ≤ r.last) && decide ((n - r.first) % r.step = 0)

/-- The small letter of a character by the simple mapping; itself if it has none. -/
def smallLetter (c : Char) : Char :=
  match caseRuns.find? (·.contains c.toNat) with
  | some r => Char.ofNat (c.toNat + r.shift).toNat
  | none => c

/-- Whether the first character of `l` that case rules do not ignore has case. -/
def facesCased (l : List Char) : Bool :=
  match l.dropWhile isCaseIgnorable with
  | [] => false
  | c :: _ => isCased c

/-- The lower case of a character that stands between the characters of `before`,
nearest first, and those of `after`. -/
def lowerAt (before : List Char) (c : Char) (after : List Char) : List Char :=
  if c = '\u0130' then ['i', '\u0307']
  else if c = '\u03A3' then [if facesCased before && !facesCased after then '\u03C2' else '\u03C3']
  else [smallLetter c]

/-- Lower case of the rest of a text, `before` being what came before it, nearest first. -/
def lowerFrom (before : List Char) : List Char → List Char
  | [] => []
  | c :: l => lowerAt before c l ++ lowerFrom (c :: before) l

/-- The text in lower case. -/
def lower (s : String) : String := String.ofList (lowerFrom [] s.toList)

end MealRota.Text
