import Recast.Catalog.Op
import Recast.Rep

/-!
# Catalogs

A catalog binds run-time operations to members of a concrete run-time, with their signatures.
It never changes while code is generated.

* `Method.pops` and `Method.pushes` are the stack effect of a call;
* `Catalog.get?_bind` and `Catalog.get?_without` say what the two ways to change a catalog do.
-/

namespace Recast

/-- How the receiver of a member is passed. -/
inductive Receiver where
  /-- No receiver, arguments only. -/
  | static
  /-- The address of a value, for members of value types. -/
  | address (rep : Rep)
  /-- A reference, for virtual members. -/
  | virtual (rep : Rep)
  /-- No receiver: the member makes a new instance. -/
  | constructor (rep : Rep)
  deriving DecidableEq

/-- A parameter of a member. -/
inductive Param where
  /-- A value of the given representation. -/
  | value (rep : Rep)
  /-- The ambient run-time context. -/
  | context
  /-- The type handle of the class in scope. -/
  | typeHandle
  deriving DecidableEq

/-- How a parameter is written. -/
def Param.toString : Param → String
  | value r => r.toString
  | context => "ctx"
  | typeHandle => "type"

instance : ToString Param := ⟨Param.toString⟩

/-- A run-time member and its signature. -/
structure Method where
  /-- The type that owns the member. -/
  owner : String
  /-- The name of the member. -/
  name : String
  /-- How the receiver is passed. -/
  receiver : Receiver
  /-- The parameters in order. -/
  params : List Param
  /-- The representation of the result. -/
  returns : Rep
  deriving DecidableEq

namespace Method

variable (m : Method)

/-- The operands that a call consumes, the receiver included. -/
def pops : Nat :=
  (match m.receiver with
    | .address _ | .virtual _ => 1
    | .static | .constructor _ => 0) + m.params.length

/-- The operands that a call produces. -/
def pushes : Nat := if m.returns = .void then 0 else 1

/-- The signature as it is written. -/
def toString : String :=
  m.owner ++ "::" ++ m.name ++ "(" ++ ", ".intercalate (m.params.map Param.toString) ++ ") -> " ++
    m.returns.toString

instance : ToString Method := ⟨toString⟩

end Method

/-- A binding of run-time operations. -/
structure Catalog where
  /-- The member an operation is bound to, if it is bound. -/
  get? : Op → Option Method

namespace Catalog

/-- The catalog that binds nothing. -/
def empty : Catalog := ⟨fun _ => none⟩

variable (C : Catalog)

/-- Bind an operation; a binding it had is replaced. -/
def bind (op : Op) (m : Method) : Catalog :=
  ⟨fun o => if o = op then some m else C.get? o⟩

/-- Remove the binding of an operation. -/
def without (op : Op) : Catalog := ⟨fun o => if o = op then none else C.get? o⟩

/-- Keep the bindings of the listed operations only. -/
def restrict (ops : List Op) : Catalog := ⟨fun o => if o ∈ ops then C.get? o else none⟩

/-- The operation is bound. -/
def contains (op : Op) : Bool := (C.get? op).isSome

/-- The number of bound operations. -/
def size : Nat := Op.all.countP C.contains

/-- Nothing is bound. -/
def isEmpty : Bool := C.size == 0

@[simp]
theorem get?_bind (op o : Op) (m : Method) :
    (C.bind op m).get? o = if o = op then some m else C.get? o := rfl

@[simp]
theorem get?_without (op o : Op) :
    (C.without op).get? o = if o = op then none else C.get? o := rfl

end Catalog

end Recast
