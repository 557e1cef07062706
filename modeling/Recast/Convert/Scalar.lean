import Recast.Convert.Union

/-!
# Conversions into scalars

Truth values, integers and floats, and the numeric union that holds an integer or a float. Text
is parsed, multi-field values are asked through their address, and what has no numeric reading
of its own is put into the dynamic union first.

* `Scope.toBool`, `Scope.toInt`, `Scope.toLong` and `Scope.toDouble` leave exactly the scalar;
* `Scope.toNumber` leaves the numeric union.
-/

namespace Recast

namespace Scope

variable (S : Scope) (reshape : Reshape)

/-- Convert to a truth value. Instances are true unless they are null. -/
def toBool (source : Rep) : Script Rep := do
  match source with
  | .void => .emit (.ldcI4 0)
  | .bool => pure ()
  | .int32 =>
    .emit (.ldcI4 0)
    .emit .cgtUn
  | .int64 =>
    .emit (.ldcI8 0)
    .emit .cgtUn
  | .float32 =>
    .emit .convR8
    S.apply .doubleToBool
  | .float64 => S.apply .doubleToBool
  | .char =>
    S.apply .charToText
    S.apply .textToBool
  | .text => S.apply .textToBool
  | .mutText => S.applyByAddress source .mutTextToBool
  | .number => S.applyByAddress source .numberToBool
  | .value => S.applyByAddress source .valueToBool
  | .array => S.apply .arrayToBool
  | .object _ | .resource | .callable | .bytes =>
    .emit .ldNull
    .emit .cgtUn
  | .key | .alias | .nullable _ =>
    let _ ← S.viaValue reshape source .valueToBool
  return .bool

/-- Convert to the native integer. -/
def toLong (source : Rep) : Script Rep := do
  match source with
  | .void => .emit (.ldcI8 0)
  | .bool | .int32 => .emit .convI8
  | .int64 => pure ()
  | .float32 =>
    .emit .convR8
    S.apply .doubleToLong
  | .float64 => S.apply .doubleToLong
  | .char =>
    S.apply .charToText
    S.apply .textToLong
  | .text => S.apply .textToLong
  | .mutText => S.applyByAddress source .mutTextToLong
  | .number => S.applyByAddress source .numberToLong
  | .value => S.applyByAddress source .valueToLong
  | _ =>
    let _ ← S.viaValue reshape source .valueToLong
  return .int64

/-- Convert to a 32-bit integer. A truth value is 0 or 1 already. -/
def toInt (source : Rep) : Script Rep := do
  match source with
  | .void => .emit (.ldcI4 0)
  | .bool | .int32 => pure ()
  | _ =>
    let _ ← S.toLong reshape source
    .emit .convI4
  return .int32

/-- Convert to the native float. -/
def toDouble (source : Rep) : Script Rep := do
  match source with
  | .void => .emit (.ldcR8 .zero)
  | .bool | .int32 | .int64 | .float32 => .emit .convR8
  | .float64 => pure ()
  | .char =>
    S.apply .charToText
    S.apply .textToDouble
  | .text => S.apply .textToDouble
  | .mutText => S.applyByAddress source .mutTextToDouble
  | .number => S.applyByAddress source .numberToDouble
  | .value => S.applyByAddress source .valueToDouble
  | _ =>
    let _ ← S.viaValue reshape source .valueToDouble
  return .float64

/-- Parse text as a number; any other value stays as it is. -/
def parseText : Rep → Script Rep
  | .text => S.call .textToNumber
  | .mutText => S.callByAddress .mutText .mutTextToNumber
  | source => return source

/-- Convert to the numeric union. -/
def toNumber (source : Rep) : Script Rep := do
  match source with
  | .void => S.apply .numberZero
  | .bool | .int32 =>
    .emit .convI8
    S.apply .numberFromLong
  | .int64 => S.apply .numberFromLong
  | .float32 =>
    .emit .convR8
    S.apply .numberFromDouble
  | .float64 => S.apply .numberFromDouble
  | .char =>
    S.apply .charToText
    S.apply .textToNumber
  | .text | .mutText =>
    let _ ← S.parseText source
  | .number => pure ()
  | .value => S.applyByAddress source .valueToNumber
  | _ =>
    let _ ← S.viaValue reshape source .valueToNumber
  return .number

end Scope

end Recast
