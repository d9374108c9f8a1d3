import MealRota.Number.Numeral
import MealRota.Text.Blank

/-!
# MealRota.Number.Typed

Numbers typed by hand.  Outer white space and a sign are allowed, and underscores
may group the digits.

* `typedWhole` — a whole number; zeros at its front and a fraction of zeros go
  before it is read, and so do underscores among the zeros;
* `typedDouble?` — a double, the words for infinity and not-a-number included.
-/

namespace MealRota

/-! ## underscores -/

/-- Whether two underscores stand next to each other. -/
def hasDoubleUnderscore : List Char → Bool
  | '_' :: '_' :: _ => true
  | _ :: r => hasDoubleUnderscore r
  | [] => false

/-- Whether underscores may be struck out: none of them stands at an end or next to another. -/
def groupsDigits (cs : List Char) : Bool :=
  cs.head? != some '_' && cs.getLast? != some '_' && !hasDoubleUnderscore cs

/-- The characters that are no underscores. -/
def strikeUnderscores (cs : List Char) : List Char := cs.filter (· != '_')

/-! ## whole numbers -/

/-- What a text says of a whole number. -/
inductive TypedWhole where
  | whole (n : Int)
  /-- The number has too many digits. -/
  | tooLong
  /-- The text is no whole number. -/
  | unreadable
  deriving DecidableEq

/-- What is left after zeros and underscores at the front, the last of which is `last`.  The
last one stays before a point and where nothing else is left. -/
def afterZeros? (last : Char) : List Char → Option (List Char)
  | [] => some [last]
  | c :: r =>
      if c = '0' ∨ c = '_' then afterZeros? c r
      else if c.isDigit ∨ c = '-' then some (c :: r)
      else if c = '.' then some (last :: c :: r)
      else none

/-- A number without idle zeros at its front; it must begin with a digit or a minus sign. -/
def dropIdleZeros? : List Char → Option (List Char)
  | [] => none
  | c :: r =>
      if c = '0' then afterZeros? c r
      else if c.isDigit ∨ c = '-' then some (c :: r)
      else none

/-- A number with a sign without idle zeros at its front and without a plus sign. -/
def dropSignedZeros? : List Char → Option (List Char)
  | '-' :: r => (dropIdleZeros? r).map ('-' :: ·)
  | '+' :: '-' :: _ => none
  | '+' :: r => dropIdleZeros? r
  | r => dropIdleZeros? r

/-- A number without its fraction, if that consists of zeros. -/
def dropZeroFraction (cs : List Char) : List Char :=
  let (before, after) := cs.span (· != '.')
  let zeros := after.drop 1
  if !zeros.isEmpty && zeros.all (· = '0') then before else cs

/-- A whole number as JSON writes it.  Too many digits are noticed before what follows them. -/
def plainWhole (cs : List Char) : TypedWhole :=
  let (negative, unsigned) := match cs with
    | '-' :: r => (true, r)
    | r => (false, r)
  let (digits, rest) := unsigned.span Char.isDigit
  if !Numeral.isLeadFree digits then .unreadable
  else if mostDigits < digits.length then .tooLong
  else if !rest.isEmpty then .unreadable
  else .whole (if negative then -(digitsValue digits : Int) else digitsValue digits)

/-- A whole number that is left when idle zeros, a plus sign, a fraction of zeros and underscores
have gone.  One with too many digits is unreadable then. -/
def looseWhole (cs : List Char) : TypedWhole :=
  match dropSignedZeros? cs with
  | none => .unreadable
  | some cs =>
    let cs := dropZeroFraction cs
    match plainWhole (if groupsDigits cs then strikeUnderscores cs else cs) with
    | .tooLong => .unreadable
    | result => result

/-- A whole number typed by hand. -/
def typedWhole (s : String) : TypedWhole :=
  let cs := Text.dropEnds Text.isWhiteSpace s.toList
  match plainWhole cs with
  | .unreadable => looseWhole cs
  | result => result

/-! ## doubles -/

/-- The words for the doubles that have no digits. -/
def wordOfDouble? : List Char → Option Float
  | ['i', 'n', 'f'] => some (1 / 0)
  | ['i', 'n', 'f', 'i', 'n', 'i', 't', 'y'] => some (1 / 0)
  | ['n', 'a', 'n'] => some (0 / 0)
  | _ => none

/-- A double with an optional sign: a word or a numeral with at least one digit. -/
def plainDouble? (cs : List Char) : Option Float :=
  let unsigned := match cs with
    | '-' :: r => r
    | '+' :: r => r
    | r => r
  match wordOfDouble? (unsigned.map Char.toLower) with
  | some x => some (if cs.head? = some '-' then -x else x)
  | none => do
    let n ← Numeral.parts? true cs
    guard (!n.wholeDigits.isEmpty || !(n.fraction.getD []).isEmpty)
    return n.toDouble

/-- A double typed by hand: with outer white space, or with underscores, but not with both. -/
def typedDouble? (s : String) : Option Float :=
  let cs := s.toList
  match plainDouble? (Text.dropEnds Text.isWhiteSpace cs) with
  | some x => some x
  | none => if groupsDigits cs then plainDouble? (strikeUnderscores cs) else none

end MealRota
