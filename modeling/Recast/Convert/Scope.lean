import Recast.Catalog.Basic
import Recast.ClassTable
import Recast.Convert.Script

/-!
# Scopes and calls

A scope is all that a conversion may consult: the catalog, the classes, and the class whose
method is being compiled. What has been emitted so far is not part of it, so a plan never
depends on history.

* `Scope.call` plans the call of an operation whose receiver and explicit arguments are on the
  stack; the arguments that the signature implies are pushed by the plan.
-/

namespace Recast

/-- All that a conversion may consult. -/
structure Scope where
  /-- How the run-time binds operations. -/
  catalog : Catalog
  /-- The classes of the program. -/
  classes : ClassTable
  /-- The class whose method is being compiled. -/
  caller : Option ClassId

/-- The instruction that calls an operation bound to the member. -/
def Method.callInstr (m : Method) (op : Op) : Instr :=
  match m.receiver with
  | .constructor _ => .newObj op
  | .virtual _ => .callVirt op
  | .static | .address _ => .call op

namespace Scope

variable (S : Scope)

/-- The instruction that pushes the argument for a parameter, if the parameter implies it. -/
def implicitArg? : Param → Option Instr
  | .value _ => none
  | .context => some .ldContext
  | .typeHandle => some (.ldTypeHandle S.caller)

/-- Call an operation whose receiver and explicit arguments are on the stack. An operation that
is not bound is found out before anything is pushed for it. -/
def call (op : Op) : Script Rep :=
  match S.catalog.get? op with
  | some m => ⟨(m.params.filterMap S.implicitArg? ++ [m.callInstr op]).map .emit, .ok m.returns⟩
  | none => .fail (.missingOp op)

/-- Call an operation on the address of the value on the stack. -/
def callByAddress (r : Rep) (op : Op) : Script Rep := do
  .spill r
  S.call op

/-- Call an operation whose result is known beforehand. -/
def apply (op : Op) : Script Unit := do
  let _ ← S.call op

/-- Call an operation, whose result is known beforehand, on the address of the value on the
stack. -/
def applyByAddress (r : Rep) (op : Op) : Script Unit := do
  let _ ← S.callByAddress r op

end Scope

end Recast
