import MealRota.Number.Shortest

/-!
# MealRota.Number.Layout

How a double is written out: its shortest decimal, positionally while the first
digit stands close to the point and with an exponent otherwise.  A positional
form always shows a point and at least one digit after it.

* `plain` — the layout of answers and messages;
* `snapshot` — the layout of stored snapshots.
-/

namespace MealRota

/-- The choices in writing a double. -/
structure Layout where
  /-- The least power of ten of a first digit that is still written positionally. -/
  lowest : Int
  /-- The least power of ten of a first digit that is no longer written positionally. -/
  beyond : Int
  /-- The least number of digits of an exponent. -/
  exponentDigits : Nat
  deriving DecidableEq

namespace Layout

/-- Answers and messages: positional from `0.0001` and below `10^16`, exponents of two digits. -/
def plain : Layout := ⟨-4, 16, 2⟩

/-- Stored snapshots: positional from `0.00001` and below `10^16`, exponents as short as can be. -/
def snapshot : Layout := ⟨-5, 16, 1⟩

/-- Put zeros in front of digits until there are `width` of them. -/
def padLeft (width : Nat) (digits : List Char) : List Char :=
  List.replicate (width - digits.length) '0' ++ digits

/-- Digits with a point after the first `n` of them. -/
def withPoint (n : Nat) (digits : List Char) : List Char :=
  digits.take n ++ '.' :: digits.drop n

/-- The positional form of digits whose first one stands for `10^power`. -/
def positional (digits : List Char) (power : Int) : List Char :=
  if power < 0 then
    withPoint 1 (List.replicate power.natAbs '0' ++ digits)
  else
    let places := power.natAbs + 1
    if digits.length ≤ places then
      digits ++ List.replicate (places - digits.length) '0' ++ ['.', '0']
    else
      withPoint places digits

/-- The form with an exponent of digits whose first one stands for `10^power`. -/
def scientific (f : Layout) (digits : List Char) (power : Int) : List Char :=
  let mantissa := if digits.length ≤ 1 then digits else withPoint 1 digits
  mantissa ++ 'e' :: (if power < 0 then '-' else '+')
    :: padLeft f.exponentDigits (Nat.toDigits 10 power.natAbs)

/-- The written form of a decimal. -/
def ofDecimal (f : Layout) (d : Decimal) : List Char :=
  let digits := Nat.toDigits 10 d.digits
  let power := d.exponent + digits.length - 1
  if f.lowest ≤ power ∧ power < f.beyond then positional digits power
  else f.scientific digits power

/-- The bit that doubles with a minus sign have set. -/
def signBit : UInt64 := 0x8000000000000000

/-- The written form of a finite double; the sign of a negative zero is kept. -/
def write (f : Layout) (x : Float) : String :=
  let sign := if x.toBits < signBit then [] else ['-']
  String.ofList (sign ++ f.ofDecimal (.shortest x.abs))

end Layout

end MealRota
