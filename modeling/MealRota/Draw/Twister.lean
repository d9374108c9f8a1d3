/-!
# MealRota.Draw.Twister

A reproducible source of random doubles: the Mersenne twister on 624 words of
32 bits, seeded by an array of words.  A whole number of any size is a seed: its
32-bit digits, least significant first, are the array.
-/

namespace MealRota

/-- A twister: its words and how many of them have been given out. -/
structure Twister where
  words : Array UInt32
  given : Nat

namespace Twister

/-- How many words a twister has. -/
def size : Nat := 624

/-! ## seeding -/

/-- The word `i` of an array, a missing one counting as zero. -/
def word (ws : Array UInt32) (i : Nat) : UInt32 := ws.getD i 0

/-- How a word carries over into the next one. -/
def carry (w : UInt32) : UInt32 := w ^^^ (w >>> 30)

/-- The words that follow from a single one. -/
def expand (start : UInt32) : Array UInt32 :=
  (List.range (size - 1)).foldl
    (fun ws i => ws.push (1812433253 * carry (word ws i) + UInt32.ofNat (i + 1))) #[start]

/-- The index after `i`; the last one is followed by the second, and its word moves to the front. -/
def advance (ws : Array UInt32) (i : Nat) : Array UInt32 × Nat :=
  if i + 1 < size then (ws, i + 1) else (ws.setIfInBounds 0 (word ws (size - 1)), 1)

/-- Mix `rounds` more words with the key, the key's digits going round from index `j`. -/
def mixKey (key : Array UInt32) : Nat → Array UInt32 × Nat → Nat → Array UInt32 × Nat
  | 0, state, _ => state
  | rounds + 1, (ws, i), j =>
      let w := (word ws i ^^^ (carry (word ws (i - 1)) * 1664525)) + word key j + UInt32.ofNat j
      let next := if j + 1 < key.size then j + 1 else 0
      mixKey key rounds (advance (ws.setIfInBounds i w) i) next

/-- Mix `rounds` more words among themselves. -/
def mixOwn : Nat → Array UInt32 × Nat → Array UInt32 × Nat
  | 0, state => state
  | rounds + 1, (ws, i) =>
      let w := (word ws i ^^^ (carry (word ws (i - 1)) * 1566083941)) - UInt32.ofNat i
      mixOwn rounds (advance (ws.setIfInBounds i w) i)

/-- The twister seeded by an array of words. -/
def ofKey (key : Array UInt32) : Twister :=
  let mixed := mixOwn (size - 1) (mixKey key (max size key.size) (expand 19650218, 1) 0)
  ⟨mixed.1.setIfInBounds 0 0x80000000, size⟩

/-- The 32-bit digits of a number, least significant first; at least one. -/
def digits (n : Nat) : List UInt32 :=
  if n < 0x100000000 then [UInt32.ofNat n] else UInt32.ofNat n :: digits (n / 0x100000000)
termination_by n
decreasing_by omega

/-- The twister of a seed; the sign of the seed does not matter. -/
def ofSeed (seed : Int) : Twister := ofKey (digits seed.natAbs).toArray

/-! ## drawing -/

/-- The new value of a word, made of its own top bit, the rest of the next word and a far one. -/
def twist (own next far : UInt32) : UInt32 :=
  let y := (own &&& 0x80000000) ||| (next &&& 0x7FFFFFFF)
  far ^^^ (y >>> 1) ^^^ (if y &&& 1 = 0 then 0 else 0x9908B0DF)

/-- Renew every word, in order. -/
def renew (ws : Array UInt32) : Array UInt32 :=
  (List.range size).foldl
    (fun ws i => ws.setIfInBounds i
      (twist (word ws i) (word ws ((i + 1) % size)) (word ws ((i + 397) % size)))) ws

/-- Spread the bits of a word before it is given out. -/
def temper (w : UInt32) : UInt32 :=
  let w := w ^^^ (w >>> 11)
  let w := w ^^^ ((w <<< 7) &&& 0x9D2C5680)
  let w := w ^^^ ((w <<< 15) &&& 0xEFC60000)
  w ^^^ (w >>> 18)

/-- The next word and the twister after it. -/
def next (t : Twister) : UInt32 × Twister :=
  let t := if t.given < size then t else ⟨renew t.words, 0⟩
  (temper (word t.words t.given), ⟨t.words, t.given + 1⟩)

/-- The next double, at least 0 and below 1, with 53 random bits, and the twister after it. -/
def nextDouble (t : Twister) : Float × Twister :=
  let (a, t) := t.next
  let (b, t) := t.next
  let bits := (a >>> 5).toNat * 0x4000000 + (b >>> 6).toNat
  (Float.ofNat bits / 9007199254740992, t)

end Twister

end MealRota
