import Recast.Decimal.Shortest

/-!
# How floats are written

A float is written by its shortest decimal. From `10 ^ (-4)` up to, but without, `10 ^ 16` the
point stands where it belongs and a whole number keeps `.0`; outside, one digit stands before
the point and a power of ten follows. Zero keeps its sign, and what is no number has none.
-/

namespace Recast

namespace Decimal

/-- The least magnitude that is written positionally: `0.0001` is, and smaller numbers are
not. -/
def leastPositional : Int := -3

/-- The greatest magnitude that is written positionally: `9999999999999998.0` is, and greater
numbers are not. -/
def greatestPositional : Int := 16

/-- The digits as characters. -/
def digitChars (d : Decimal) : List Char := Nat.toDigits 10 d.digits

/-- The power of ten just above the number. -/
def magnitude (d : Decimal) : Int := d.digitChars.length + d.exponent

/-- The digits with the point where it belongs, and a digit on both sides of it. -/
def positional (d : Decimal) : List Char :=
  let ds := d.digitChars
  let k := d.magnitude
  if k ≤ 0 then '0' :: '.' :: (List.replicate (-k).toNat '0' ++ ds)
  else if d.exponent < 0 then ds.take k.toNat ++ '.' :: ds.drop k.toNat
  else ds ++ List.replicate d.exponent.toNat '0' ++ ['.', '0']

/-- One digit, the others after a point if there are any, and a power of ten. -/
def scientific (d : Decimal) : List Char :=
  let power := 'e' :: (toString (d.magnitude - 1)).toList
  match d.digitChars with
  | [] => power
  | [c] => c :: power
  | c :: cs => c :: '.' :: (cs ++ power)

/-- The decimal as it is written. -/
def write (d : Decimal) : List Char :=
  if leastPositional ≤ d.magnitude ∧ d.magnitude ≤ greatestPositional then d.positional
  else d.scientific

end Decimal

namespace Binary

/-- A number of the format as it is written. Below the least full significand of a binade the
numbers lie twice as dense, but for the smallest binade. -/
def Format.write (F : Format) : Decoded → List Char
  | .nan => ['N', 'a', 'N']
  | .infinite negative => if negative then ['-', 'i', 'n', 'f'] else ['i', 'n', 'f']
  | .finite negative m e =>
    let magnitude :=
      if m = 0 then ['0', '.', '0']
      else
        let denseBelow := m == Nat.pow 2 F.fractionBits && F.minExponent < e
        (Decimal.shortest (.ofDyadic m e denseBelow)).write
    if negative then '-' :: magnitude else magnitude

end Binary

/-- The float as it is written. -/
def Binary32.toString (x : Binary32) : String := .ofList (Binary.single.write x.decode)

/-- The float as it is written. -/
def Binary64.toString (x : Binary64) : String := .ofList (Binary.double.write x.decode)

instance : ToString Binary32 := ⟨Binary32.toString⟩

instance : ToString Binary64 := ⟨Binary64.toString⟩

/-! ### Examples -/

example : (Binary64.mk 0x3ff0000000000000).toString = "1.0" := by decide +kernel

example : (Binary64.mk 0x8000000000000000).toString = "-0.0" := by decide +kernel

example : (Binary64.mk 0x0000000000000001).toString = "5e-324" := by decide +kernel

/-- Both bounds of positional writing. -/
example : (Binary64.mk 0x3f1a36e2eb1c432d).toString = "0.0001" ∧
    (Binary64.mk 0x3f1a36e2eb1c432c).toString = "9.999999999999999e-5" ∧
    (Binary64.mk 0x4341c37937e07fff).toString = "9999999999999998.0" ∧
    (Binary64.mk 0x4341c37937e08000).toString = "1e16" := by decide +kernel

/-- The last digit lies in the middle between two decimals that both read back. -/
example : (Binary64.mk 0x3e60000000000000).toString = "2.9802322387695313e-8" := by
  decide +kernel

example : (Binary32.mk 0x3dcccccd).toString = "0.1" := by decide +kernel

end Recast
