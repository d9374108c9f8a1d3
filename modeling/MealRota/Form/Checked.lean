import MealRota.Json.Value

/-!
# MealRota.Form.Checked

Checking data from outside.  A check either reads a value or lists every issue
found, each with the path to the place where it was found.  Checks are combined
side by side, so that the issues of all parts are reported, in order.
-/

namespace MealRota.Form

/-- The kinds of issues. -/
inductive Code where
  | missing
  | notText
  | textTooShort
  | notWhole
  | hasFraction
  | unreadableWhole
  | wholeTooLarge
  | notFinite
  | notDouble
  | unreadableDouble
  | notTruth
  | unreadableTruth
  | tooSmall
  | tooLarge
  | unknownMember
  | notSet
  | notFrozenSet
  | notTable
  | notRecord
  | inconsistent
  | notDate
  | unreadableDate
  | dateWithTime
  | impossibleDate
  deriving DecidableEq

/-- The word for a kind of issue. -/
def Code.name : Code → String
  | missing => "missing"
  | notText => "string_type"
  | textTooShort => "string_too_short"
  | notWhole => "int_type"
  | hasFraction => "int_from_float"
  | unreadableWhole => "int_parsing"
  | wholeTooLarge => "int_parsing_size"
  | notFinite => "finite_number"
  | notDouble => "float_type"
  | unreadableDouble => "float_parsing"
  | notTruth => "bool_type"
  | unreadableTruth => "bool_parsing"
  | tooSmall => "greater_than_equal"
  | tooLarge => "less_than_equal"
  | unknownMember => "enum"
  | notSet => "set_type"
  | notFrozenSet => "frozen_set_type"
  | notTable => "dict_type"
  | notRecord => "model_type"
  | inconsistent => "value_error"
  | notDate => "date_type"
  | unreadableDate => "date_from_datetime_parsing"
  | dateWithTime => "date_from_datetime_inexact"
  | impossibleDate => "date_parsing"

/-- Something that is wrong, and where. -/
structure Issue where
  path : List String
  code : Code
  deriving DecidableEq

/-- The path written with points between its steps. -/
def Issue.place (i : Issue) : String := ".".intercalate i.path

/-- What was read, or all that is wrong with it. -/
inductive Checked (α : Type) where
  | ok (a : α)
  | bad (issues : List Issue)

namespace Checked

variable {α β : Type}

/-- A single issue at this very place. -/
def issue (code : Code) : Checked α := .bad [⟨[], code⟩]

/-- Apply a function to what was read. -/
def map (f : α → β) : Checked α → Checked β
  | .ok a => .ok (f a)
  | .bad l => .bad l

/-- Two checks side by side. -/
def seq (f : Checked (α → β)) (x : Checked α) : Checked β :=
  match f, x with
  | .ok f, .ok a => .ok (f a)
  | .ok _, .bad l => .bad l
  | .bad l, .ok _ => .bad l
  | .bad l, .bad m => .bad (l ++ m)

instance : Applicative Checked where
  pure := .ok
  map := map
  seq f x := seq f (x ())

/-- Go on with what was read. -/
def andThen (x : Checked α) (f : α → Checked β) : Checked β :=
  match x with
  | .ok a => f a
  | .bad l => .bad l

/-- The check of a part that is found under `step`. -/
def under (step : String) : Checked α → Checked α
  | .ok a => .ok a
  | .bad l => .bad (l.map fun i => ⟨step :: i.path, i.code⟩)

/-- Check the items of a list, each under its index, the first of which is `start`. -/
def items (check : Value → Checked α) (start : Nat) : List Value → Checked (List α)
  | [] => .ok []
  | v :: l => seq (map List.cons (under (toString start) (check v))) (items check (start + 1) l)

end Checked

end MealRota.Form
