import Recast.Constant
import Recast.Convert.Scope

/-!
# Constant folding

A constant can often be loaded in the representation it is wanted in. Only conversions whose
result at run time is the same in every context are folded; the text of a float is not.

* `Scope.loadConstant?` plans the load, if there is one.
-/

namespace Recast

/-- Null and the truth values as integers. -/
def Constant.toBit : Constant → Nat
  | .bool true => 1
  | _ => 0

namespace Scope

variable (S : Scope)

/-- Push `true` as 1 and `false` as 0. -/
def loadBool (b : Bool) : Script Unit := .emit (.ldcI4 (if b then 1 else 0))

/-- Load a constant directly in a representation. -/
def loadConstant? (c : Constant) (target : Rep) : Option (Script Rep) :=
  let load (s : Script Unit) : Option (Script Rep) := some do
    s
    return target
  match c, target with
  | .null, .value => load (S.apply .valueNull)
  | .null, .text => load do let _ ← Script.text ""
  | .null, .array | .null, .object _ | .null, .resource | .null, .callable =>
    load (.emit .ldNull)
  | .bool b, .value => load (S.apply (if b then .valueTrue else .valueFalse))
  | .bool b, .text => load do let _ ← Script.text (if b then "1" else "")
  | .long i, .text => load do let _ ← Script.text i.toInt.repr
  | .long i, .int32 => load (.emit (.ldcI4 i.toInt32))
  | .double x, .float32 => load (.emit (.ldcR4 x.toBinary32))
  | .text s, .text => load do let _ ← Script.text s
  | .text s, .mutText => load do
    let _ ← Script.text s
    S.apply .newMutText
  | _, .bool => load (loadBool c.isTruthy)
  | .null, .int32 | .bool _, .int32 => load (.emit (.ldcI4 (.ofNat c.toBit)))
  | .long i, .int64 => load (.emit (.ldcI8 i))
  | .null, .int64 | .bool _, .int64 => load (.emit (.ldcI8 (.ofNat c.toBit)))
  | .long i, .float64 => load (.emit (.ldcR8 (.ofInt i.toInt)))
  | .double x, .float64 => load (.emit (.ldcR8 x))
  | .null, .float64 | .bool _, .float64 => load (.emit (.ldcR8 (.ofInt c.toBit)))
  | _, _ => none

end Scope

end Recast
