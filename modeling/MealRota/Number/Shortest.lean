/-!
# MealRota.Number.Shortest

The shortest decimal that reads back as a given double.

A finite double `m · 2^e` has a finite decimal expansion: `m · 2^e` itself if
`e` is not negative, and `m · 5^(-e)` over `10^(-e)` otherwise.  The shortest
decimal is found by cutting that expansion to one digit, to two, and so on.  At
each length the cut and the next decimal above it are tried, the nearer first,
and the first one that reads back is taken; uncut, the expansion is the double.
-/

namespace MealRota

/-- The decimal `digits · 10^exponent`. -/
structure Decimal where
  digits : Nat
  exponent : Int
  deriving DecidableEq

namespace Decimal

/-- The double nearest to a decimal. -/
def toDouble (d : Decimal) : Float :=
  Float.ofScientific d.digits (decide (d.exponent < 0)) d.exponent.natAbs

/-- How many digits are written, trailing zeros included. -/
def length (d : Decimal) : Nat := (Nat.toDigits 10 d.digits).length

/-- The decimal expansion of `m · 2^e`. -/
def ofBinary (m : Nat) (e : Int) : Decimal :=
  if e < 0 then ⟨m * Nat.pow 5 e.natAbs, e⟩ else ⟨m * Nat.pow 2 e.natAbs, 0⟩

/-- The two decimals around `d` that are `drop` digits shorter, the nearer first;
halfway between them the one with an even last digit goes first. -/
def neighbours (d : Decimal) (drop : Nat) : List Decimal :=
  let unit := Nat.pow 10 drop
  let low : Decimal := ⟨d.digits / unit, d.exponent + drop⟩
  let high : Decimal := ⟨d.digits / unit + 1, d.exponent + drop⟩
  let rest := 2 * (d.digits % unit)
  if rest < unit ∨ (rest = unit ∧ low.digits % 2 = 0) then [low, high] else [high, low]

/-- The shortest decimal that reads back as `x`, at most `drop` digits shorter than `d`. -/
def shorten (x : Float) (d : Decimal) : Nat → Decimal
  | 0 => d
  | drop + 1 =>
      match (d.neighbours (drop + 1)).find? (fun c => decide (c.toDouble = x)) with
      | some c => c
      | none => shorten x d drop

/-- Strike out trailing zeros, at most `fuel` of them. -/
def strikeZeros : Nat → Decimal → Decimal
  | 0, d => d
  | fuel + 1, d =>
      if d.digits % 10 = 0 then strikeZeros fuel ⟨d.digits / 10, d.exponent + 1⟩ else d

/-- The same decimal without trailing zeros. -/
def normalize (d : Decimal) : Decimal :=
  if d.digits = 0 then ⟨0, 0⟩ else strikeZeros d.length d

/-- The shortest decimal that reads back as the finite positive double `x`. -/
def shortest (x : Float) : Decimal :=
  match x.toModel.unpack with
  | .finite _ m e _ =>
      let d := ofBinary m e
      (shorten x d (d.length - 1)).normalize
  | _ => ⟨0, 0⟩

end Decimal

end MealRota
