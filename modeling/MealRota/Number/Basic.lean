/-!
# MealRota.Number.Basic

Numbers as data holds them: whole numbers of any size, and doubles.  Arithmetic
on two whole numbers is exact; as soon as a double takes part, the other operand
is rounded to a double first, and a whole number beyond the range of the doubles
has none.

* `quotient` — the double nearest to a fraction, rounded once.
-/

namespace MealRota

/-- A whole number of any size, or a double. -/
inductive Number where
  | whole (n : Int)
  | real (x : Float)
  deriving DecidableEq

/-- The most digits of a whole number that is written in a text. -/
def mostDigits : Nat := 4300

/-- Whether a whole number has few enough digits to be written in a text. -/
def isWritable (n : Int) : Bool := (toString n.natAbs).length ≤ mostDigits

/-- The double nearest to a whole number, unless the number is beyond their range. -/
def nearestDouble (n : Int) : Option Float :=
  let x := Float.ofInt n
  if x.isInf then none else some x

/-- The double nearest to `n / d`, ties going to the even neighbour; zero if `d` is zero. -/
def quotient (n d : Nat) : Float :=
  if hn : 0 < n then
    if hd : 0 < d then
      .ofModel <| .pack <| .div .binary64 (.finite .positive n 0 hn) (.finite .positive d 0 hd)
    else 0
  else 0

/-- The whole number that a double is, if it is one. -/
def exactWhole? (x : Float) : Option Int :=
  match x.toModel.unpack with
  | .zero _ => some 0
  | .finite sign m e _ =>
      let unit := Nat.pow 2 e.natAbs
      if 0 ≤ e then some (sign.apply (m * unit))
      else if m % unit = 0 then some (sign.apply (m / unit))
      else none
  | _ => none

namespace Number

/-- The number as a double, unless it is beyond their range. -/
def toDouble? : Number → Option Float
  | whole n => nearestDouble n
  | real x => some x

/-- The product, unless a whole factor beyond the range of the doubles meets a double. -/
def mul? : Number → Number → Option Number
  | whole a, whole b => some (whole (a * b))
  | a, b => do return real ((← a.toDouble?) * (← b.toDouble?))

/-- The sum, unless a whole term beyond the range of the doubles meets a double. -/
def add? : Number → Number → Option Number
  | whole a, whole b => some (whole (a + b))
  | a, b => do return real ((← a.toDouble?) + (← b.toDouble?))

/-- Whether the number is zero. -/
def isZero : Number → Bool
  | whole n => n = 0
  | real x => x == 0

/-- Whether the number is below a whole bound that every double can hold. -/
def isBelow (bound : Int) : Number → Bool
  | whole n => n < bound
  | real x => x < Float.ofInt bound

end Number

end MealRota
