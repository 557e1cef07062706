import Recast.Convert.Scope
import Recast.Hint

/-!
# Conversions into the dynamic union

Every representation can be put into the dynamic union, and most conversions without a way of
their own pass through it.

The functions that convert into a target take any source, by cases: the source is no alias any
more, it is narrowed as far as its hint admits, and it differs from the target. Where a
conversion has to convert a part of the value in turn, that nested conversion is a parameter:
the plan of `reshape source hint target`.

* `Scope.toValue` puts a value into the union;
* `Scope.viaValue` does so and calls an operation of the union.
-/

namespace Recast

/-- How nested conversions are planned. -/
abbrev Reshape := Rep → Hint → Rep → Script Rep

namespace Scope

variable (S : Scope) (reshape : Reshape)

/-- Convert a nullable: its payload if it has one, null otherwise. -/
def nullableToValue (p : Payload) : Script Rep := do
  .step (.reserve (.nullable p))
  .step .fork
  .step (.store (.nullable p))
  .step (.address (.nullable p))
  .emit (.hasValue p)
  .step .brAbsent
  .step (.address (.nullable p))
  .emit (.getValue p)
  let _ ← reshape p.rep .empty .value
  .step .brEnd
  .step .markAbsent
  S.apply .valueNull
  .step .markEnd
  return .value

/-- Convert to the dynamic union. That no value was produced differs from null. -/
def toValue : Rep → Script Rep
  | .void => S.call .valueVoid
  | .bool => S.call .valueFromBool
  | .int32 => do
    .emit .convI8
    S.call .valueFromLong
  | .int64 => S.call .valueFromLong
  | .float32 => do
    .emit .convR8
    S.call .valueFromDouble
  | .float64 => S.call .valueFromDouble
  | .char => do
    S.apply .charToText
    S.call .valueFromText
  | .text => S.call .valueFromText
  | .mutText => S.call .valueFromMutText
  | .number => S.call .valueFromNumber
  | .value => return .value
  | .key => S.call .valueFromKey
  | .array => S.call .valueFromArray
  | .alias => S.call .aliasGetValue
  | .object _ | .resource | .callable | .bytes => S.call .valueFromObject
  | .nullable p => S.nullableToValue reshape p

/-- Convert to the dynamic union, and call an operation on its address. -/
def viaValue (source : Rep) (op : Op) : Script Rep := do
  let _ ← S.toValue reshape source
  S.callByAddress .value op

end Scope

end Recast
