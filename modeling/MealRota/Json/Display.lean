import MealRota.Json.Value
import MealRota.Number.Layout
import MealRota.Text.Printable

/-!
# MealRota.Json.Display

How messages quote a value.  A text stands in single quotes, or in double quotes
if it holds a single quote and no double one; characters without a printed form
are shown by their code point.  Null, truth values and doubles that are not
finite have words of their own.
-/

namespace MealRota

namespace Text

/-- `n` in hexadecimal, with zeros in front up to `width` digits. -/
def hexadecimal (width n : Nat) : List Char := Layout.padLeft width (Nat.toDigits 16 n)

/-- A character of a text quoted by `mark`. -/
def showChar (mark c : Char) : List Char :=
  if c = mark ∨ c = '\\' then ['\\', c]
  else if c = '\n' then ['\\', 'n']
  else if c = '\t' then ['\\', 't']
  else if c = '\r' then ['\\', 'r']
  else if isPrintable c then [c]
  else if c.toNat < 0x100 then '\\' :: 'x' :: hexadecimal 2 c.toNat
  else if c.toNat < 0x10000 then '\\' :: 'u' :: hexadecimal 4 c.toNat
  else '\\' :: 'U' :: hexadecimal 8 c.toNat

/-- The quotation mark for a text. -/
def quotationMark (cs : List Char) : Char :=
  if cs.contains '\x27' && !cs.contains '"' then '"' else '\x27'

/-- A quoted text. -/
def quoted (s : String) : List Char :=
  let mark := quotationMark s.toList
  mark :: s.toList.flatMap (showChar mark) ++ [mark]

end Text

namespace Number

/-- A number as messages show it. -/
def display : Number → String
  | whole n => toString n
  | real x =>
      if x.isNaN then "nan"
      else if x.isInf then (if x < 0 then "-inf" else "inf")
      else Layout.plain.write x

end Number

namespace Value

mutual

/-- The quoted form of a value. -/
def spell : Value → List Char
  | null => "None".toList
  | bool true => "True".toList
  | bool false => "False".toList
  | number n => n.display.toList
  | text s => Text.quoted s
  | list [] => ['[', ']']
  | list (v :: l) => '[' :: spell v ++ spellItems l
  | record [] => ['\x7b', '\x7d']
  | record ((k, v) :: l) => '\x7b' :: Text.quoted k ++ ':' :: ' ' :: spell v ++ spellFields l

/-- The items after the first one, and the end of the list. -/
def spellItems : List Value → List Char
  | [] => [']']
  | v :: l => ',' :: ' ' :: spell v ++ spellItems l

/-- The fields after the first one, and the end of the record. -/
def spellFields : List (String × Value) → List Char
  | [] => ['\x7d']
  | (k, v) :: l => ',' :: ' ' :: Text.quoted k ++ ':' :: ' ' :: spell v ++ spellFields l

end

/-- The quoted form of a value. -/
def display (v : Value) : String := String.ofList v.spell

/-- The plain form of a value: a text as it is, anything else in its quoted form. -/
def plain : Value → String
  | text s => s
  | v => v.display

mutual

/-- The whole numbers that either form of a value shows. -/
def wholes : Value → List Int
  | number (.whole n) => [n]
  | list l => wholesOfItems l
  | record l => wholesOfFields l
  | _ => []

/-- The whole numbers of some items. -/
def wholesOfItems : List Value → List Int
  | [] => []
  | v :: l => wholes v ++ wholesOfItems l

/-- The whole numbers of some fields. -/
def wholesOfFields : List (String × Value) → List Int
  | [] => []
  | (_, v) :: l => wholes v ++ wholesOfFields l

end

end Value

end MealRota
