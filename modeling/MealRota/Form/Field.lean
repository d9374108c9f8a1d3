import MealRota.Calendar.Moment
import MealRota.Form.Checked
import MealRota.Number.Typed
import MealRota.Order.TextSet

/-!
# MealRota.Form.Field

Reading single fields.  Numbers and truth values are read generously: a whole
number also from a double without fraction, from a truth value or from text, and
likewise for the others.  Texts, members of vocabularies and collections are read
as they are or not at all.
-/

namespace MealRota.Form

/-! ## plain values -/

/-- A text. -/
def text : Value → Checked String
  | .text s => .ok s
  | _ => .issue .notText

/-- A text that is not empty. -/
def nonemptyText (v : Value) : Checked String :=
  (text v).andThen fun s => if s.isEmpty then .issue .textTooShort else .ok s

/-- The least whole number that does not fit a signed word of 64 bits. -/
def wordRange : Int := 0x8000000000000000

/-- A double as a whole number.  Doubles beyond 64 bits are not taken for whole numbers. -/
def wholeOfDouble (x : Float) : Checked Int :=
  if !x.isFinite then .issue .notFinite
  else match exactWhole? x with
    | none => .issue .hasFraction
    | some n => if x.abs < Float.ofInt wordRange then .ok n else .issue .wholeTooLarge

/-- A whole number. -/
def whole : Value → Checked Int
  | .bool b => .ok (if b then 1 else 0)
  | .number (.whole n) => .ok n
  | .number (.real x) => wholeOfDouble x
  | .text s =>
    match typedWhole s with
    | .whole n => .ok n
    | .tooLong => .issue .wholeTooLarge
    | .unreadable => .issue .unreadableWhole
  | _ => .issue .notWhole

/-- A whole number from `least` on. -/
def wholeFrom (least : Nat) (v : Value) : Checked Nat :=
  (whole v).andThen fun n => if (least : Int) ≤ n then .ok n.toNat else .issue .tooSmall

/-- A double. -/
def double : Value → Checked Float
  | .bool b => .ok (if b then 1 else 0)
  | .number n =>
    match n.toDouble? with
    | some x => .ok x
    | none => .issue .notDouble
  | .text s =>
    match typedDouble? s with
    | some x => .ok x
    | none => .issue .unreadableDouble
  | _ => .issue .notDouble

/-- A double; a whole number beyond the range of the doubles is infinite. -/
def boundlessDouble : Value → Checked Float
  | .number (.whole n) => .ok (Float.ofInt n)
  | v => double v

/-- A double from zero on. -/
def doubleFromZero (v : Value) : Checked Float :=
  (double v).andThen fun x => if 0 ≤ x then .ok x else .issue .tooSmall

/-- A double from zero to one. -/
def share (v : Value) : Checked Float :=
  (double v).andThen fun x =>
    if ¬ x ≤ 1 then .issue .tooLarge else if ¬ 0 ≤ x then .issue .tooSmall else .ok x

/-- Words for true. -/
def trueWords : List String := ["1", "on", "t", "true", "y", "yes"]

/-- Words for false. -/
def falseWords : List String := ["0", "off", "f", "false", "n", "no"]

/-- A truth value. -/
def truth : Value → Checked Bool
  | .bool b => .ok b
  | .number (.whole n) =>
    if n = 1 then .ok true
    else if n = 0 then .ok false
    else if -wordRange ≤ n ∧ n < wordRange then .issue .unreadableTruth
    else .issue .notTruth
  | .number (.real x) =>
    match wholeOfDouble x with
    | .ok n => if n = 1 then .ok true else if n = 0 then .ok false else .issue .unreadableTruth
    | .bad _ => .issue .notTruth
  | .text s =>
    let word := s.map Char.toLower
    if trueWords.contains word then .ok true
    else if falseWords.contains word then .ok false
    else .issue .unreadableTruth
  | _ => .issue .notTruth

/-- A member of a vocabulary, by its name. -/
def member {α : Type} (ofName? : String → Option α) : Value → Checked α
  | .text s =>
    match ofName? s with
    | some a => .ok a
    | none => .issue .unknownMember
  | _ => .issue .unknownMember

/-- A day. -/
def date (v : Value) : Checked Date :=
  match Date.ofMoment v with
  | .ok d => .ok d
  | .error .noMoment => .issue .notDate
  | .error .unreadable => .issue .unreadableDate
  | .error .notMidnight => .issue .dateWithTime
  | .error .yearZero => .issue .impossibleDate

/-- A value that may be null. -/
def nullable {α : Type} (check : Value → Checked α) : Value → Checked (Option α)
  | .null => .ok none
  | v => (check v).map some

/-! ## collections -/

/-- The members of a set, one for each item. -/
def setOf {α : Type} (code : Code) (check : Value → Checked α) : Value → Checked (List α)
  | .list l => Checked.items check 0 l
  | _ => .issue code

/-- A set of texts. -/
def textSet (v : Value) : Checked TextSet := (setOf .notSet text v).map TextSet.ofList

/-- The entries of a table: the issues of a key come before those of its value. -/
def entries {κ ν : Type} (key : String → Option κ) (check : Value → Checked ν) :
    List (String × Value) → Checked (List (κ × ν))
  | [] => .ok []
  | (k, v) :: l =>
    let entry := Checked.under k <|
      ((member key (.text k)).under "[key]").map Prod.mk |>.seq (check v)
    (entry.map List.cons).seq (entries key check l)

/-- A table. -/
def table {κ ν : Type} (key : String → Option κ) (check : Value → Checked ν) :
    Value → Checked (List (κ × ν))
  | .record l => entries key check l
  | _ => .issue .notTable

/-! ## fields of a record -/

/-- A field that must be there. -/
def required {α : Type} (fields : List (String × Value)) (key : String)
    (check : Value → Checked α) : Checked α :=
  Checked.under key <|
    match Value.lookup key fields with
    | some v => check v
    | none => .issue .missing

/-- A field that may be left out. -/
def optional {α : Type} (fields : List (String × Value)) (key : String) (default : α)
    (check : Value → Checked α) : Checked α :=
  match Value.lookup key fields with
  | some v => Checked.under key (check v)
  | none => .ok default

end MealRota.Form
