/-!
# Representations

A representation is the physical layout of a run-time value. Exactly one describes a value at
any program point.

* `Rep.isReference` and `Rep.isValueType` split all representations but `void` in two;
* `Rep.needsAddress` marks the multi-field layouts whose operations take an address;
* `Payload.ofRep?_rep` and `Payload.rep_of_ofRep?` say that a payload and its representation
  determine each other.
-/

namespace Recast

/-- The position of a class in a class table. -/
abbrev ClassId := Nat

/-- The root class, from which every class derives. -/
def ClassId.root : ClassId := 0

/-- The layouts a nullable wrapper may hold. -/
inductive Payload where
  | bool
  | int32
  | int64
  | float32
  | float64
  | char
  | number
  | key
  deriving DecidableEq

/-- The physical layout of a run-time value. -/
inductive Rep where
  /-- No value at all: the result of a statement. -/
  | void
  /-- A truth value, 0 or 1 on the operand stack. -/
  | bool
  /-- A 32-bit signed integer. -/
  | int32
  /-- A 64-bit signed integer, the native one. -/
  | int64
  /-- A 32-bit float. -/
  | float32
  /-- A 64-bit float, the native one. -/
  | float64
  /-- One UTF-16 unit. -/
  | char
  /-- Immutable text. -/
  | text
  /-- Mutable text, a multi-field layout. -/
  | mutText
  /-- An integer or a float, tagged. -/
  | number
  /-- The dynamic union, able to hold a value of any representation. -/
  | value
  /-- An integer or text key of an ordered collection. -/
  | key
  /-- An ordered associative collection. -/
  | array
  /-- A reference cell. -/
  | alias
  /-- A resource handle. -/
  | resource
  /-- Anything that can be called. -/
  | callable
  /-- A byte array. -/
  | bytes
  /-- An instance of a class. -/
  | object (cls : ClassId)
  /-- A nullable wrapper around a payload. -/
  | nullable (payload : Payload)
  deriving DecidableEq

namespace Payload

/-- The representation of the payload itself. -/
def rep : Payload → Rep
  | bool => .bool
  | int32 => .int32
  | int64 => .int64
  | float32 => .float32
  | float64 => .float64
  | char => .char
  | number => .number
  | key => .key

/-- How a payload is written. -/
def toString : Payload → String
  | bool => "bool"
  | int32 => "int32"
  | int64 => "int64"
  | float32 => "float32"
  | float64 => "float64"
  | char => "char"
  | number => "number"
  | key => "key"

/-- The payload with the given representation, if a nullable may hold it. -/
def ofRep? : Rep → Option Payload
  | .bool => some bool
  | .int32 => some int32
  | .int64 => some int64
  | .float32 => some float32
  | .float64 => some float64
  | .char => some char
  | .number => some number
  | .key => some key
  | _ => none

@[simp]
theorem ofRep?_rep (p : Payload) : ofRep? p.rep = some p := by
  cases p <;> rfl

theorem rep_of_ofRep? {r : Rep} {p : Payload} (h : ofRep? r = some p) : p.rep = r := by
  cases r <;> simp only [ofRep?, Option.some.injEq, reduceCtorEq] at h <;> subst h <;> rfl

end Payload

namespace Rep

/-- An instance of the root class. -/
def root : Rep := object ClassId.root

/-- Every representation, with `object` and `nullable` taken once each. -/
def all : List Rep :=
  [.void, .bool, .int32, .int64, .float32, .float64, .char, .text, .mutText, .number, .value,
    .key, .array, .alias, .resource, .callable, .bytes, .root, .nullable .int64]

/-- Values of this representation are heap references, and may be null. -/
def isReference : Rep → Bool
  | .text | .array | .alias | .resource | .callable | .bytes | .object _ => true
  | _ => false

/-- Values of this representation are copied. -/
def isValueType (r : Rep) : Bool := !r.isReference && r != void

/-- Multi-field layouts: their operations take the address of a value. -/
def needsAddress : Rep → Bool
  | .mutText | .number | .value | .key | .nullable _ => true
  | _ => false

/-- Numeric scalars; a truth value counts, it promotes to 0 or 1. -/
def isNumericScalar : Rep → Bool
  | .bool | .int32 | .int64 | .float32 | .float64 => true
  | _ => false

/-- How a representation is written. -/
def toString : Rep → String
  | .void => "void"
  | .bool => "bool"
  | .int32 => "int32"
  | .int64 => "int64"
  | .float32 => "float32"
  | .float64 => "float64"
  | .char => "char"
  | .text => "text"
  | .mutText => "mut_text"
  | .number => "number"
  | .value => "value"
  | .key => "key"
  | .array => "array"
  | .alias => "alias"
  | .resource => "resource"
  | .callable => "callable"
  | .bytes => "bytes"
  | .object c => "object#" ++ c.repr
  | .nullable p => "nullable<" ++ p.toString ++ ">"

instance : ToString Rep := ⟨Rep.toString⟩

/-- A payload is written like its representation. -/
@[simp]
theorem toString_rep (p : Payload) : p.rep.toString = p.toString := by
  cases p <;> rfl

theorem isValueType_of_needsAddress {r : Rep} (h : r.needsAddress = true) :
    r.isValueType = true := by
  cases r <;> simp_all [needsAddress, isValueType, isReference]

end Rep

end Recast
