/-!
# MealRota.Json.Token

The lexical part of JSON: a text is cut into punctuation, quoted texts and words.
A word is any run of other characters between them; whether it is a number, a
literal or nothing at all is for the reader to say.

Cutting is a left fold over the characters, so it is total and takes each
character once.  Control characters inside a quoted text, unknown escapes and
surrogates without a partner are faults; the tokens before a fault are kept.
-/

namespace MealRota.Json

/-- A piece of JSON text. -/
inductive Token where
  | openList
  | closeList
  | openRecord
  | closeRecord
  | comma
  | colon
  | text (s : String)
  | word (cs : List Char)
  deriving DecidableEq

/-- What is being read. -/
inductive Mode where
  /-- Nothing: between two tokens. -/
  | between
  /-- A word, its characters so far in reverse. -/
  | word (acc : List Char)
  /-- A quoted text, its characters so far in reverse. -/
  | text (acc : List Char)
  /-- The character after a backslash; `high` is a high surrogate that waits for its partner. -/
  | escape (acc : List Char) (high : Option Nat)
  /-- The digits of a `\u` escape: `left` more are due, `value` is what they say so far. -/
  | digits (acc : List Char) (high : Option Nat) (left value : Nat)
  /-- The backslash that must follow a high surrogate. -/
  | partner (acc : List Char) (high : Nat)
  /-- Nothing any more: there was a fault. -/
  | fault
  deriving DecidableEq

/-- Whether a character may stand between tokens. -/
def isSpace (c : Char) : Bool := c = ' ' || c = '\t' || c = '\n' || c = '\r'

/-- The token of a punctuation character. -/
def punctuation? (c : Char) : Option Token :=
  if c = '[' then some .openList
  else if c = ']' then some .closeList
  else if c = '\x7b' then some .openRecord
  else if c = '\x7d' then some .closeRecord
  else if c = ',' then some .comma
  else if c = ':' then some .colon
  else none

/-- The character that a one-letter escape stands for. -/
def escaped? (c : Char) : Option Char :=
  if c = '"' ∨ c = '\\' ∨ c = '/' then some c
  else if c = 'b' then some '\x08'
  else if c = 'f' then some '\x0c'
  else if c = 'n' then some '\n'
  else if c = 'r' then some '\r'
  else if c = 't' then some '\t'
  else none

/-- The value of a hexadecimal digit. -/
def hexDigit? (c : Char) : Option Nat :=
  if '0' ≤ c ∧ c ≤ '9' then some (c.toNat - '0'.toNat)
  else if 'a' ≤ c ∧ c ≤ 'f' then some (c.toNat - 'a'.toNat + 10)
  else if 'A' ≤ c ∧ c ≤ 'F' then some (c.toNat - 'A'.toNat + 10)
  else none

/-- How reading goes on after a complete `\u` escape. -/
def afterUnit (acc : List Char) (high : Option Nat) (value : Nat) : Mode :=
  match high with
  | some h =>
      if 0xDC00 ≤ value ∧ value ≤ 0xDFFF then
        .text (Char.ofNat (0x10000 + (h - 0xD800) * 0x400 + (value - 0xDC00)) :: acc)
      else .fault
  | none =>
      if 0xD800 ≤ value ∧ value ≤ 0xDBFF then .partner acc value
      else if 0xDC00 ≤ value ∧ value ≤ 0xDFFF then .fault
      else .text (Char.ofNat value :: acc)

/-- Begin with a character outside of texts, `done` holding the earlier tokens in reverse. -/
def beginToken (done : List Token) (c : Char) : Mode × List Token :=
  if isSpace c then (.between, done)
  else match punctuation? c with
    | some t => (.between, t :: done)
    | none => if c = '"' then (.text [], done) else (.word [c], done)

/-- Whether a character belongs to a word. -/
def isWordChar (c : Char) : Bool := !isSpace c && (punctuation? c).isNone && c != '"'

/-- Take one character. -/
def takeChar : Mode × List Token → Char → Mode × List Token
  | (.between, done), c => beginToken done c
  | (.word acc, done), c =>
      if isWordChar c then (.word (c :: acc), done)
      else beginToken (.word acc.reverse :: done) c
  | (.text acc, done), c =>
      if c = '"' then (.between, .text (String.ofList acc.reverse) :: done)
      else if c = '\\' then (.escape acc none, done)
      else if c < ' ' then (.fault, done)
      else (.text (c :: acc), done)
  | (.escape acc high, done), c =>
      if c = 'u' then (.digits acc high 4 0, done)
      else
        match high, escaped? c with
        | none, some d => (.text (d :: acc), done)
        | _, _ => (.fault, done)
  | (.digits acc high left value, done), c =>
      match hexDigit? c with
      | some d =>
        let value := 16 * value + d
        (if 1 < left then .digits acc high (left - 1) value else afterUnit acc high value, done)
      | none => (.fault, done)
  | (.partner acc high, done), c =>
      (if c = '\\' then .escape acc (some high) else .fault, done)
  | (.fault, done), _ => (.fault, done)

/-- The tokens read when the text ends, and whether it may end there: not after a fault nor
inside a quoted text. -/
def finish : Mode × List Token → List Token × Bool
  | (.between, done) => (done.reverse, true)
  | (.word acc, done) => ((.word acc.reverse :: done).reverse, true)
  | (_, done) => (done.reverse, false)

/-- The tokens of a text up to the first fault, and whether there is none. -/
def tokens (cs : List Char) : List Token × Bool := finish (cs.foldl takeChar (.between, []))

end MealRota.Json
