import Recast.Convert.Narrow
import Recast.Convert.Reference
import Recast.Convert.Scalar

/-!
# Conversions of a value on the stack

`Scope.convert` plans how the value on top of the stack is brought from one representation to
another. The rules are tried in order: a value that has the representation stays; for no value
at all it is dropped; an alias is dereferenced; a reference that may be used as the target
stays; a union is narrowed by its hint; and then the target decides.

Rules nest. `Scope.reshapeAt` allows a given depth of nesting, and `Scope.reshape` a depth that
is enough for every catalog in which an alias leads to something other than an alias: an alias,
a narrowing that yields an alias again, a target made from another target, and a nullable
source below that.

* `Scope.reshape` plans a conversion, `Scope.convert` also names it in an error;
* `Scope.asArray` and `Scope.asObject` ask for an array or an instance and take null for
  anything else.
-/

namespace Recast

namespace Scope

variable (S : Scope)

/-- Convert into the target: the last rule. -/
def intoTarget (reshape : Reshape) (source : Rep) (hint : Hint) (target : Rep) : Script Rep :=
  match target with
  | .void => return .void
  | .bool => S.toBool reshape source
  | .int32 => S.toInt reshape source
  | .int64 => S.toLong reshape source
  | .float32 => do
    let _ ← S.toDouble reshape source
    .emit .convR4
    return .float32
  | .float64 => S.toDouble reshape source
  | .number => S.toNumber reshape source
  | .char => do
    let _ ← S.toText reshape source
    S.call .textToChar
  | .text => S.toText reshape source
  | .mutText => S.toMutText reshape source
  | .value => S.toValue reshape source
  | .key => S.toKey reshape source
  | .array => S.toArray source
  | .alias => S.toAlias reshape source
  | .callable => S.toCallable reshape source
  | .bytes => do
    let _ ← reshape source hint .mutText
    S.callByAddress .mutText .mutTextToBytes
  | .object _ | .resource => S.toObject source target
  | .nullable p => do
    let _ ← reshape source hint p.rep
    .emit (.newNullable p)
    return target

/-- One round of the rules; nested conversions are planned by `reshape`. -/
def reshapeBy (reshape : Reshape) (source : Rep) (hint : Hint) (target : Rep) : Script Rep :=
  if source = target then return target
  else if target = .void then do
    .drop source
    return .void
  else if source = .alias then do
    let inner ← S.call .aliasGetValue
    reshape inner hint.withoutRef target
  else if S.classes.assignable source target then return source
  else
    match S.narrow? source hint with
    | some narrowing => do
      let narrowed ← narrowing
      reshape narrowed narrowed.hint target
    | none => S.intoTarget reshape source hint target

/-- The rules, nested no deeper than a given depth. -/
def reshapeAt : Nat → Reshape
  | 0 => fun _ _ _ => .fail .endlessAlias
  | depth + 1 => S.reshapeBy (reshapeAt depth)

/-- A depth of nesting that no conversion exceeds, unless aliases lead to aliases. -/
def nesting : Nat := 6

/-- Plan the conversion of the value on the stack; the result is the representation that is left
there, the target or one that may be used as it. For no value at all, nothing is on the stack. -/
def reshape : Reshape := S.reshapeAt nesting

/-- Plan the conversion of the value on the stack, and name it in an error. -/
def convert (source : Rep) (hint : Hint) (target : Rep) : Script Rep :=
  (S.reshape source hint target).mapError (.inConversion source target)

/-- Convert to a truth value, and negate it if asked to. -/
def convertToBool (source : Rep) (hint : Hint) (negated : Bool) : Script Rep := do
  let _ ← S.convert source hint .bool
  if negated then .negate
  return .bool

/-- Replace an alias by the value it leads to; any other value stays as it is. -/
def dereference (source : Rep) : Script Rep :=
  if source = .alias then S.call .aliasGetValue else return source

/-- Widen a 32-bit integer or a truth value to the native integer; any other value stays as it
is. -/
def widenInt : Rep → Script Rep
  | .bool | .int32 => do
    .emit .convI8
    return .int64
  | source => return source

/-- The array, or null for anything else. This never fails at run time. -/
def asArray (source : Rep) : Script Rep := do
  let source ← S.dereference source
  match source with
  | .array => pure ()
  | .value => S.apply .valueAsArray
  | _ =>
    if source.isReference then .emit (.isInst .array)
    else
      .drop source
      .emit .ldNull
  return .array

/-- The instance, or null for anything else. This never fails at run time. -/
def asObject (source : Rep) : Script Rep := do
  let source ← S.dereference source
  match source with
  | .object _ | .callable => return source
  | .value => S.call .valueAsObject
  | _ =>
    .drop source
    .emit .ldNull
    return .root

end Scope

end Recast
