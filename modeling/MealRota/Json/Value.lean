import MealRota.Number.Basic

/-!
# MealRota.Json.Value

Data as JSON writes it.  Whole numbers and doubles are kept apart, and a record
keeps all its fields in order.  Of two fields of one name the last counts.
-/

namespace MealRota

/-- A value of JSON data. -/
inductive Value where
  | null
  | bool (b : Bool)
  | number (n : Number)
  | text (s : String)
  | list (items : List Value)
  | record (fields : List (String × Value))

namespace Value

instance : Inhabited Value := ⟨null⟩

/-- Whether the value is null. -/
def isNull : Value → Bool
  | null => true
  | _ => false

/-- A whole number. -/
def ofInt (n : Int) : Value := .number (.whole n)

/-- A natural number. -/
def ofNat (n : Nat) : Value := .number (.whole n)

/-- A double. -/
def ofDouble (x : Float) : Value := .number (.real x)

/-- The value of the last field of that name. -/
def lookup (key : String) : List (String × Value) → Option Value
  | [] => none
  | (k, v) :: l => (lookup key l).or (if k = key then some v else none)

/-- The value of a field, if the value is a record that has it. -/
def field? (v : Value) (key : String) : Option Value :=
  match v with
  | record fields => lookup key fields
  | _ => none

end Value

end MealRota
