import MealRota.Json.Token
import MealRota.Json.Value
import MealRota.Number.Numeral

/-!
# MealRota.Json.Reader

Reading JSON: a left fold over the tokens with the open lists and records on a
stack.  Besides the numbers of JSON the words for not-a-number and the two
infinities are read.  How long numbers and how deeply nested lists and records may
be is for the caller to say.
-/

namespace MealRota.Json

/-- A list or record that waits for the value being read. -/
inductive Frame where
  /-- A list, its items so far in reverse. -/
  | list (items : List Value)
  /-- A record, its fields so far in reverse, and the name of the field being read. -/
  | record (fields : List (String × Value)) (key : String)

/-- What may come next. -/
inductive Phase where
  /-- A value. -/
  | value
  /-- The first item of a list, or its end. -/
  | firstItem
  /-- A comma or the end of a list with these items, in reverse. -/
  | afterItem (items : List Value)
  /-- The first name of a record, or its end. -/
  | firstKey
  /-- A name, after these fields in reverse. -/
  | key (fields : List (String × Value))
  /-- The colon after a name. -/
  | colon (fields : List (String × Value)) (key : String)
  /-- A comma or the end of a record with these fields, in reverse. -/
  | afterField (fields : List (String × Value))
  /-- Nothing: the value is complete. -/
  | complete (v : Value)

/-- The two kinds of value that enclose others. -/
inductive Container where
  | list
  | record
  deriving DecidableEq

/-- The kind of what waits. -/
def Frame.container : Frame → Container
  | .list _ => .list
  | .record .. => .record

/-- Why a text is not read. -/
inductive ReadProblem where
  /-- The text is not JSON, or a number in it has too many digits. -/
  | malformed
  /-- Too many lists and records enclose a value; the innermost of them is of this kind. -/
  | tooDeep (innermost : Container)
  deriving DecidableEq

/-- What a reader puts up with.  There may be no limit. -/
structure Limits where
  /-- How many lists and records may enclose a value. -/
  depth : Option Nat
  /-- How many digits a whole number may have. -/
  wholeDigits : Option Nat
  /-- How many digits a number with a point or an exponent may have before them. -/
  realDigits : Option Nat

/-- Read whatever comes. -/
def Limits.unlimited : Limits := ⟨none, none, none⟩

/-- Whether a number may have so many digits. -/
def Limits.admitsDigits (limits : Limits) (n : Numeral) : Bool :=
  (if n.isWhole then limits.wholeDigits else limits.realDigits).all fun most =>
    n.wholeDigits.length ≤ most

/-- The innermost of the open lists and records, if there are more than may enclose a value. -/
def Limits.excess? (limits : Limits) (stack : List Frame) : Option Container :=
  if limits.depth.all fun most => stack.length ≤ most then none
  else stack.head?.map Frame.container

/-- The value that a word stands for. -/
def scalar? (limits : Limits) (word : List Char) : Option Value :=
  if word = ['n', 'u', 'l', 'l'] then some .null
  else if word = ['t', 'r', 'u', 'e'] then some (.bool true)
  else if word = ['f', 'a', 'l', 's', 'e'] then some (.bool false)
  else if word = ['N', 'a', 'N'] then some (.ofDouble (0 / 0))
  else if word = ['I', 'n', 'f', 'i', 'n', 'i', 't', 'y'] then some (.ofDouble (1 / 0))
  else if word = ['-', 'I', 'n', 'f', 'i', 'n', 'i', 't', 'y'] then some (.ofDouble (-1 / 0))
  else (Numeral.strict? limits.admitsDigits word).map .number

/-- Hand a finished value to what waits for it. -/
def deliver (v : Value) : List Frame → List Frame × Phase
  | [] => ([], .complete v)
  | .list items :: stack => (stack, .afterItem (v :: items))
  | .record fields key :: stack => (stack, .afterField ((key, v) :: fields))

/-- Begin a value with a token. -/
def beginValue (limits : Limits) (stack : List Frame) (t : Token) :
    Except ReadProblem (List Frame × Phase) :=
  match limits.excess? stack with
  | some innermost => .error (.tooDeep innermost)
  | none =>
    match t with
    | .text s => .ok (deliver (.text s) stack)
    | .word cs =>
      match scalar? limits cs with
      | some v => .ok (deliver v stack)
      | none => .error .malformed
    | .openList => .ok (stack, .firstItem)
    | .openRecord => .ok (stack, .firstKey)
    | _ => .error .malformed

/-- Take one token. -/
def takeToken (limits : Limits) :
    List Frame × Phase → Token → Except ReadProblem (List Frame × Phase)
  | (stack, .value), t => beginValue limits stack t
  | (stack, .firstItem), .closeList => .ok (deliver (.list []) stack)
  | (stack, .firstItem), t => beginValue limits (.list [] :: stack) t
  | (stack, .afterItem items), .comma => .ok (.list items :: stack, .value)
  | (stack, .afterItem items), .closeList => .ok (deliver (.list items.reverse) stack)
  | (stack, .firstKey), .closeRecord => .ok (deliver (.record []) stack)
  | (stack, .firstKey), .text key => .ok (stack, .colon [] key)
  | (stack, .key fields), .text key => .ok (stack, .colon fields key)
  | (stack, .colon fields key), .colon => .ok (.record fields key :: stack, .value)
  | (stack, .afterField fields), .comma => .ok (stack, .key fields)
  | (stack, .afterField fields), .closeRecord =>
      .ok (deliver (.record fields.reverse) stack)
  | _, _ => .error .malformed

/-- The value of a sequence of tokens, which must make up exactly one and be `complete`. -/
def ofTokens (limits : Limits) (ts : List Token) (complete : Bool) :
    Except ReadProblem Value := do
  match ← ts.foldlM (takeToken limits) ([], .value), complete with
  | (_, .complete v), true => return v
  | _, _ => throw .malformed

/-- The value that a text denotes.  What comes first in the text is noticed first. -/
def read (limits : Limits) (s : String) : Except ReadProblem Value :=
  let (ts, complete) := tokens s.toList
  ofTokens limits ts complete

end MealRota.Json
