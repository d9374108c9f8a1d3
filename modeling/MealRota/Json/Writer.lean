import MealRota.Json.Value
import MealRota.Number.Layout

/-!
# MealRota.Json.Writer

Writing JSON without any space.  In quoted texts only the quote, the backslash
and the control characters are escaped; every other character stands as it is.
A double that is not finite is written as null.
-/

namespace MealRota.Json

/-- The hexadecimal digit of a number below sixteen. -/
def hexDigit (n : Nat) : Char := Char.ofNat (if n < 10 then '0'.toNat + n else 'a'.toNat + n - 10)

/-- A character inside a quoted text. -/
def escapeChar (c : Char) : List Char :=
  if c = '"' ∨ c = '\\' then ['\\', c]
  else if c = '\x08' then ['\\', 'b']
  else if c = '\x0c' then ['\\', 'f']
  else if c = '\n' then ['\\', 'n']
  else if c = '\r' then ['\\', 'r']
  else if c = '\t' then ['\\', 't']
  else if c < ' ' then ['\\', 'u', '0', '0', hexDigit (c.toNat / 16), hexDigit (c.toNat % 16)]
  else [c]

/-- A quoted text. -/
def quote (s : String) : List Char := '"' :: s.toList.flatMap escapeChar ++ ['"']

/-- A number. -/
def writeNumber (f : Layout) : Number → List Char
  | .whole n => (toString n).toList
  | .real x => if x.isFinite then (f.write x).toList else ['n', 'u', 'l', 'l']

mutual

/-- The text of a value. -/
def write (f : Layout) : Value → List Char
  | .null => ['n', 'u', 'l', 'l']
  | .bool true => ['t', 'r', 'u', 'e']
  | .bool false => ['f', 'a', 'l', 's', 'e']
  | .number n => writeNumber f n
  | .text s => quote s
  | .list [] => ['[', ']']
  | .list (v :: l) => '[' :: write f v ++ writeItems f l
  | .record [] => ['\x7b', '\x7d']
  | .record ((k, v) :: l) => '\x7b' :: quote k ++ ':' :: write f v ++ writeFields f l

/-- The items after the first one, and the end of the list. -/
def writeItems (f : Layout) : List Value → List Char
  | [] => [']']
  | v :: l => ',' :: write f v ++ writeItems f l

/-- The fields after the first one, and the end of the record. -/
def writeFields (f : Layout) : List (String × Value) → List Char
  | [] => ['\x7d']
  | (k, v) :: l => ',' :: quote k ++ ':' :: write f v ++ writeFields f l

end

end MealRota.Json
