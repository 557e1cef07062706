import Recast.Binary

/-!
# The shortest decimal of a float

Of all decimals that read back as a given float, `shortest` picks one with the fewest digits,
and of those the nearest to the float; between two at the same distance it takes the larger.

The decimals that read back fill an interval around the float, whose ends belong to it exactly
if the significand is even. For one digit, two digits and so on, the float has a neighbour
below and one above on the grid of decimals with that many digits; the first grid with a
neighbour inside the interval decides.
-/

namespace Recast

/-- A positive decimal number, `digits · 10 ^ exponent`. -/
structure Decimal where
  /-- The significant digits. -/
  digits : Nat
  /-- The power of ten of the last digit. -/
  exponent : Int
  deriving DecidableEq

namespace Decimal

/-- The number of decimal digits of a natural number. -/
def digitCount (n : Nat) : Nat := (Nat.toDigits 10 n).length

/-- A positive fraction and the interval of numbers around it that read back as the same float,
over one denominator. -/
structure Interval where
  /-- The numerator of the number itself. -/
  num : Nat
  /-- The numerator of the lower end. -/
  low : Nat
  /-- The numerator of the upper end. -/
  high : Nat
  /-- The common denominator. -/
  den : Nat
  /-- The ends belong to the interval. -/
  closed : Bool

namespace Interval

variable (I : Interval)

/-- The interval of `m · 2 ^ e`: half a unit of the last place up, and half a unit down, but a
quarter where the numbers below lie twice as dense. -/
def ofDyadic (m : Nat) (e : Int) (denseBelow : Bool) : Interval where
  num := 4 * m * Nat.pow 2 e.toNat
  low := (4 * m - if denseBelow then 1 else 2) * Nat.pow 2 e.toNat
  high := (4 * m + 2) * Nat.pow 2 e.toNat
  den := 4 * Nat.pow 2 (-e).toNat
  closed := m % 2 == 0

/-- `a` is not under the lower end and `a` is not over the upper end, for a number `a / b` given
by its numerator over the denominator of the interval. -/
def holds (a : Nat) : Bool :=
  if I.closed then I.low ≤ a && a ≤ I.high else I.low < a && a < I.high

/-- The exponent `k` with `10 ^ (k - 1) ≤ x < 10 ^ k` for the number `x` itself. -/
def magnitude : Int :=
  if I.den ≤ I.num then digitCount (I.num / I.den) else 1 - digitCount ((I.den - 1) / I.num)

/-- The same interval in units of `10 ^ k`. -/
def scale (k : Int) : Interval :=
  { I with
    num := I.num * Nat.pow 10 (-k).toNat
    low := I.low * Nat.pow 10 (-k).toNat
    high := I.high * Nat.pow 10 (-k).toNat
    den := I.den * Nat.pow 10 k.toNat }

/-- The integer in the interval nearest to the number, if one of its two neighbours is inside;
a half goes up. -/
def nearest? : Option Nat :=
  let down := I.num / I.den
  let rest := I.num % I.den
  if rest = 0 then some down
  else
    match I.holds (down * I.den), I.holds ((down + 1) * I.den) with
    | true, true => some (if 2 * rest < I.den then down else down + 1)
    | true, false => some down
    | false, true => some (down + 1)
    | false, false => none

end Interval

/-- Drop the zeros at the end of the digits, at most `fuel` of them. -/
def strip : Nat → Decimal → Decimal
  | 0, d => d
  | fuel + 1, d =>
    if d.digits % 10 = 0 then strip fuel ⟨d.digits / 10, d.exponent + 1⟩ else d

/-- The decimal with the fewest digits inside the interval. Seventeen digits tell all floats of
64 bits apart, so the search ends within them. -/
def shortest (I : Interval) : Decimal :=
  let k := I.magnitude
  let onGrid (n : Nat) : Option Decimal :=
    (I.scale (k - n)).nearest?.map fun digits => strip n ⟨digits, k - n⟩
  ((List.range' 1 17).findSome? onGrid).getD ⟨I.num / I.den, 0⟩

end Decimal

end Recast
