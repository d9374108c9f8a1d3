import MealRota.Form.Checked
import MealRota.Order.TextSet
import MealRota.Text.Tag

/-!
# MealRota.Form.Labels

Reading dietary labels.  Labels come as a collection of texts: a list, the names
of a record, or a text, which is a collection of its characters.  They are
brought into normal form at once.  What is no such collection is not an issue of
the form but a fault that ends the reading.
-/

namespace MealRota.Form

/-- Why labels cannot be read. -/
inductive LabelFault where
  /-- The value has no parts. -/
  | noParts (kind : String)
  /-- A part is not a text. -/
  | partNotText (kind : String)
  deriving DecidableEq

/-- The word for the kind of a value. -/
def kindName : Value → String
  | .null => "NoneType"
  | .bool _ => "bool"
  | .number (.whole _) => "int"
  | .number (.real _) => "float"
  | .text _ => "str"
  | .list _ => "list"
  | .record _ => "dict"

/-- The wording of a fault. -/
def LabelFault.message : LabelFault → String
  | .noParts kind => "'" ++ kind ++ "' object is not iterable"
  | .partNotText kind => "'" ++ kind ++ "' object has no attribute 'strip'"

/-- The parts of a value. -/
def parts : Value → Except LabelFault (List Value)
  | .list l => .ok l
  | .text s => .ok (s.toList.map fun c => .text (String.ofList [c]))
  | .record l => .ok (l.map fun f => .text f.1)
  | v => .error (.noParts (kindName v))

/-- A part as a label in normal form. -/
def label : Value → Except LabelFault String
  | .text s => .ok (Text.normalizeTag s)
  | v => .error (.partNotText (kindName v))

/-- The labels of a value, in normal form. -/
def labels (v : Value) : Except LabelFault (List String) := do (← parts v).mapM label

/-- The set of labels in a field: none if the field is left out or null. -/
def labelSet (fields : List (String × Value)) (key : String) : Except LabelFault TextSet :=
  match Value.lookup key fields with
  | none | some .null => .ok TextSet.empty
  | some v => (labels v).map TextSet.ofList

/-- Why a form is refused. -/
inductive Refusal where
  | issues (l : List Issue)
  | fault (f : LabelFault)

/-- A checked form as a result. -/
def Checked.toExcept {α : Type} : Checked α → Except Refusal α
  | .ok a => .ok a
  | .bad l => .error (.issues l)

end MealRota.Form
