import MealRota.Number.Basic
import MealRota.Number.Shortest

/-!
# MealRota.Number.Numeral

Numbers written in text.  A numeral has a sign, the digits before the point, the
digits after it and an exponent.  Digits are the ten ASCII digits.

* `Numeral.strict?` — the numbers of JSON.
-/

namespace MealRota

/-- The parts of a written number. -/
structure Numeral where
  negative : Bool
  wholeDigits : List Char
  /-- The digits after the point, if there is a point. -/
  fraction : Option (List Char)
  /-- The exponent, if there is one. -/
  exponent : Option Int
  deriving DecidableEq

/-- The number that decimal digits stand for. -/
def digitsValue (digits : List Char) : Nat :=
  digits.foldl (fun n c => 10 * n + (c.toNat - '0'.toNat)) 0

namespace Numeral

/-- The exponent after the letter `e`: an optional sign and at least one digit. -/
def exponent? (cs : List Char) : Option Int :=
  let (negative, digits) := match cs with
    | '-' :: r => (true, r)
    | '+' :: r => (false, r)
    | r => (false, r)
  if digits.isEmpty || !digits.all Char.isDigit then none
  else some (if negative then -(digitsValue digits : Int) else digitsValue digits)

/-- The parts of an unsigned numeral. -/
def unsigned? (negative : Bool) (cs : List Char) : Option Numeral :=
  let (digits, rest) := cs.span Char.isDigit
  let (fraction, rest) := match rest with
    | '.' :: r => let (f, r') := r.span Char.isDigit; (some f, r')
    | r => (none, r)
  match rest with
  | [] => some ⟨negative, digits, fraction, none⟩
  | c :: r =>
      if c = 'e' ∨ c = 'E' then
        (exponent? r).map fun e => ⟨negative, digits, fraction, some e⟩
      else none

/-- The parts of a numeral that may have a minus sign, and a plus sign if `plus` says so. -/
def parts? (plus : Bool) : List Char → Option Numeral
  | '-' :: r => unsigned? true r
  | '+' :: r => if plus then unsigned? false r else none
  | r => unsigned? false r

/-- The numeral as a double. -/
def toDouble (n : Numeral) : Float :=
  let fraction := n.fraction.getD []
  let x := Decimal.toDouble
    ⟨digitsValue (n.wholeDigits ++ fraction), n.exponent.getD 0 - fraction.length⟩
  if n.negative then -x else x

/-- The numeral as a whole number, its fraction and exponent disregarded. -/
def toWhole (n : Numeral) : Int :=
  if n.negative then -(digitsValue n.wholeDigits : Int) else digitsValue n.wholeDigits

/-- Whether the digits before the point are at least one and do not start with an idle zero. -/
def isLeadFree : List Char → Bool
  | [] => false
  | ['0'] => true
  | c :: _ => c != '0'

/-- The number that the parts of a JSON numeral stand for. -/
def number? (n : Numeral) : Option Number :=
  if !isLeadFree n.wholeDigits then none
  else match n.fraction, n.exponent with
    | none, none => some (.whole n.toWhole)
    | some [], _ => none
    | _, _ => some (.real n.toDouble)

/-- Whether the numeral is written as a whole number: without point and exponent. -/
def isWhole (n : Numeral) : Bool := n.fraction.isNone && n.exponent.isNone

/-- A number by the grammar of JSON: no plus sign, no leading zero, digits on both sides of a
point.  Its parts must be such as `admits` lets pass. -/
def strict? (admits : Numeral → Bool) (cs : List Char) : Option Number := do
  let n ← parts? false cs
  guard (admits n)
  n.number?

end Numeral

end MealRota
