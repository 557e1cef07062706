import Recast.Convert.Union

/-!
# Conversions into text

Immutable and mutable text, and keys, which are integers or text.

* `Scope.toText`, `Scope.toMutText` and `Scope.toKey` leave what the operation they end in
  returns.
-/

namespace Recast

namespace Scope

variable (S : Scope) (reshape : Reshape)

/-- Convert to immutable text. -/
def toText (source : Rep) : Script Rep :=
  match source with
  | .void => .text ""
  | .bool => S.call .boolToText
  | .int32 => S.call .intToText
  | .int64 => S.call .longToText
  | .float32 => do
    .emit .convR8
    S.call .doubleToText
  | .float64 => S.call .doubleToText
  | .char => S.call .charToText
  | .text => return .text
  | .mutText => S.callByAddress source .mutTextToText
  | .number => S.callByAddress source .numberToText
  | .value => S.callByAddress source .valueToText
  | .object _ | .resource | .callable | .bytes => S.call .objectToText
  | .array | .key | .alias | .nullable _ => S.viaValue reshape source .valueToText

/-- Convert to mutable text. -/
def toMutText (source : Rep) : Script Rep :=
  match source with
  | .mutText => return .mutText
  | .value => S.call .valueToMutText
  | _ => do
    let _ ← S.toText reshape source
    S.call .newMutText

/-- Convert to a key. -/
def toKey (source : Rep) : Script Rep :=
  match source with
  | .int64 => do
    .emit .convI4
    S.call .newKeyFromInt
  | .int32 => S.call .newKeyFromInt
  | .text => S.call .newKeyFromText
  | .key => return .key
  | _ => do
    let _ ← S.toValue reshape source
    S.call .valueToKey

end Scope

end Recast
