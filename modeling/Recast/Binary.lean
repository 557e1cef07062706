/-!
# Binary floating-point numbers

A float is its bit pattern: a sign, a biased exponent and a fraction. Nothing here uses the
floating-point unit; every operation is arithmetic on naturals, so it can be reasoned about.

* `Binary.Format.decode` reads a bit pattern as a sign and a dyadic number `m · 2 ^ e`;
* `Binary.Format.round` is the pattern nearest to a dyadic number, ties to the even one;
* `Binary64.ofInt` and `Binary64.toBinary32` are the conversions built on the two.
-/

namespace Recast

namespace Binary

/-- The field widths of a binary interchange format. -/
structure Format where
  /-- Width of the exponent field. -/
  exponentBits : Nat
  /-- Width of the fraction field. -/
  fractionBits : Nat

/-- The format of 32 bits. -/
def single : Format := ⟨8, 23⟩

/-- The format of 64 bits. -/
def double : Format := ⟨11, 52⟩

/-- What a bit pattern stands for. -/
inductive Decoded where
  /-- No number. -/
  | nan
  /-- An infinity, with its sign. -/
  | infinite (negative : Bool)
  /-- The number `± m · 2 ^ e`. -/
  | finite (negative : Bool) (m : Nat) (e : Int)
  deriving DecidableEq

namespace Format

variable (F : Format)

/-- The position of the sign bit. -/
def signBit : Nat := F.exponentBits + F.fractionBits

/-- The exponent of the last fraction bit of the smallest numbers. -/
def minExponent : Int := 2 - Nat.pow 2 (F.exponentBits - 1) - F.fractionBits

/-- The pattern of positive infinity; all larger magnitudes are no numbers. -/
def infinity : Nat := (Nat.pow 2 F.exponentBits - 1) * Nat.pow 2 F.fractionBits

/-- The canonical pattern of no number. -/
def quietNaN : Nat := F.infinity + Nat.pow 2 (F.fractionBits - 1)

/-- The sign bit is set. -/
def isNegative (bits : Nat) : Bool := bits.testBit F.signBit

/-- The pattern without its sign. -/
def magnitude (bits : Nat) : Nat := bits % Nat.pow 2 F.signBit

/-- The pattern with the given sign and magnitude. -/
def withSign (negative : Bool) (magnitude : Nat) : Nat :=
  if negative then Nat.pow 2 F.signBit + magnitude else magnitude

/-- Read a bit pattern. -/
def decode (bits : Nat) : Decoded :=
  let negative := F.isNegative bits
  let a := F.magnitude bits
  let biased := a / Nat.pow 2 F.fractionBits
  let fraction := a % Nat.pow 2 F.fractionBits
  if F.infinity < a then .nan
  else if a = F.infinity then .infinite negative
  else if biased = 0 then .finite negative fraction F.minExponent
  else .finite negative (Nat.pow 2 F.fractionBits + fraction) (F.minExponent + (biased - 1 : Nat))

end Format

/-- The integer nearest to `n / 2 ^ k`; a half goes to the even neighbour. -/
def shiftRound (n k : Nat) : Nat :=
  let q := n / Nat.pow 2 k
  let r := n % Nat.pow 2 k
  if Nat.pow 2 k < 2 * r ∨ (2 * r = Nat.pow 2 k ∧ q % 2 = 1) then q + 1 else q

/-- The magnitude nearest to `m · 2 ^ e` in the format. The last place kept is the one that
leaves a full fraction, but no smaller than the format's smallest; a significand that rounds up
to the next power of two carries into the exponent by itself. -/
def Format.round (F : Format) (m : Nat) (e : Int) : Nat :=
  if m = 0 then 0
  else
    let lastPlace := max (e + m.log2 - F.fractionBits) F.minExponent
    let significand :=
      if lastPlace ≤ e then m * Nat.pow 2 (e - lastPlace).toNat
      else shiftRound m (lastPlace - e).toNat
    min F.infinity ((lastPlace - F.minExponent).toNat * Nat.pow 2 F.fractionBits + significand)

end Binary

/-- A 32-bit float. -/
structure Binary32 where
  /-- The bit pattern. -/
  bits : UInt32
  deriving DecidableEq

/-- A 64-bit float. -/
structure Binary64 where
  /-- The bit pattern. -/
  bits : UInt64
  deriving DecidableEq

namespace Binary32

/-- What the float stands for. -/
def decode (x : Binary32) : Binary.Decoded := Binary.single.decode x.bits.toNat

end Binary32

namespace Binary64

/-- Positive zero. -/
def zero : Binary64 := ⟨0⟩

/-- What the float stands for. -/
def decode (x : Binary64) : Binary.Decoded := Binary.double.decode x.bits.toNat

/-- The float is zero, of either sign. -/
def isZero (x : Binary64) : Bool := Binary.double.magnitude x.bits.toNat == 0

/-- The float is no number. -/
def isNaN (x : Binary64) : Bool := x.decode == .nan

/-- The float nearest to an integer. -/
def ofInt (i : Int) : Binary64 :=
  ⟨.ofNat (Binary.double.withSign (i < 0) (Binary.double.round i.natAbs 0))⟩

/-- The narrower float nearest to the number. -/
def toBinary32 (x : Binary64) : Binary32 :=
  ⟨.ofNat <| match x.decode with
    | .nan => Binary.single.quietNaN
    | .infinite negative => Binary.single.withSign negative Binary.single.infinity
    | .finite negative m e => Binary.single.withSign negative (Binary.single.round m e)⟩

/-- Halves go to the even neighbour: the first integers that are no floats are rounded down and
up. -/
example : ofInt (2 ^ 53 + 1) = ofInt (2 ^ 53) ∧ ofInt (2 ^ 53 + 3) = ofInt (2 ^ 53 + 4) := by
  decide +kernel

/-- The least number that rounds to infinity, and the least that does not round to zero. -/
example : (Binary64.mk 0x47effffff0000000).toBinary32 = ⟨0x7f800000⟩ ∧
    (Binary64.mk 0x3690000000000001).toBinary32 = ⟨1⟩ ∧
    (Binary64.mk 0x3690000000000000).toBinary32 = ⟨0⟩ := by decide +kernel

end Binary64

end Recast
