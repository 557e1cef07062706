import Recast.Convert.Text

/-!
# Conversions into references

Arrays, aliases, things that can be called, and instances of classes. These are the conversions
that may fail when the code runs: a reference that is no instance of the target does not pass a
checked cast.

* `Scope.toCallable` is the only conversion that a program can be refused for.
-/

namespace Recast

namespace Scope

variable (S : Scope) (reshape : Reshape)

/-- Convert to an array: null if there is no value, the array in a union or null, and a checked
cast of anything else. -/
def toArray (source : Rep) : Script Rep := do
  match source with
  | .void => .emit .ldNull
  | .array => pure ()
  | .value => S.applyByAddress source .valueGetArray
  | _ =>
    if !source.isReference then .emit (.box source)
    .emit (.castClass .array)
  return .array

/-- Convert to an alias of a new cell, or of the union itself. -/
def toAlias (source : Rep) : Script Rep :=
  match source with
  | .alias => return .alias
  | .value => S.callByAddress source .valueEnsureAlias
  | _ => do
    let _ ← S.toValue reshape source
    S.call .newAlias

/-- Convert to something that can be called. Text names a routine, which is looked up in the
scope of the caller; a number can never be called; all else is decided at run time. -/
def toCallable (source : Rep) : Script Rep :=
  match source with
  | .callable => return .callable
  | .text => S.call .textAsCallable
  | .char | .mutText => do
    let _ ← S.toText reshape source
    S.call .textAsCallable
  | _ =>
    if source = .number ∨ source.isNumericScalar then .fail (.notCallable source)
    else do
      let _ ← S.toValue reshape source
      S.call .valueAsCallable

/-- Convert to an instance of a class or to a resource. Text is no instance, and neither is a
value type: they are dropped for null. -/
def toObject (source target : Rep) : Script Rep := do
  if source = .value then
    S.apply .valueAsObject
    if target ≠ .root then .emit (.castClass target)
  else if source.isReference ∧ source ≠ .text then
    .emit (.castClass target)
  else
    .drop source
    .emit .ldNull
  return target

end Scope

end Recast
