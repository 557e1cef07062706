import Recast.Binary
import Recast.Catalog.Basic
import Recast.Decimal.FloatText

/-!
# Instructions

The instructions of the stack machine that code is generated for. Operands are taken from an
operand stack and results are left there.

* `Instr.op?` is the run-time operation that an instruction calls;
* `Instr.effect` is the number of operands an instruction takes and leaves.
-/

namespace Recast

/-- A branch target. -/
structure Label where
  /-- The position among the labels of the code. -/
  index : Nat
  deriving DecidableEq

/-- How a label is written. -/
def Label.toString (l : Label) : String := "L" ++ l.index.repr

instance : ToString Label := ⟨Label.toString⟩

/-- A stack machine instruction. -/
inductive Instr where
  /-- Do nothing. -/
  | nop
  /-- Drop the top operand. -/
  | pop
  /-- Repeat the top operand. -/
  | dup
  /-- Push the null reference. -/
  | ldNull
  /-- Push a 32-bit integer. -/
  | ldcI4 (i : Int32)
  /-- Push a 64-bit integer. -/
  | ldcI8 (i : Int64)
  /-- Push a 32-bit float. -/
  | ldcR4 (x : Binary32)
  /-- Push a 64-bit float. -/
  | ldcR8 (x : Binary64)
  /-- Push an interned text. -/
  | ldStr (index : Nat)
  /-- Push a local. -/
  | ldLoc (slot : Nat)
  /-- Push the address of a local. -/
  | ldLocA (slot : Nat)
  /-- Store the top operand in a local. -/
  | stLoc (slot : Nat)
  /-- Push an argument. -/
  | ldArg (index : Nat)
  /-- Push the address of an argument. -/
  | ldArgA (index : Nat)
  /-- Push the ambient context. -/
  | ldContext
  /-- Push the type handle of a class, or of no class. -/
  | ldTypeHandle (cls : Option ClassId)
  /-- Convert to a 32-bit integer. -/
  | convI4
  /-- Convert to a 64-bit integer. -/
  | convI8
  /-- Convert to a 32-bit float. -/
  | convR4
  /-- Convert to a 64-bit float. -/
  | convR8
  /-- Compare for equality. -/
  | ceq
  /-- Compare for greater, unsigned. -/
  | cgtUn
  /-- Call a member. -/
  | call (op : Op)
  /-- Call a virtual member. -/
  | callVirt (op : Op)
  /-- Call a constructor. -/
  | newObj (op : Op)
  /-- Call a routine of the program, whose name is an interned text. -/
  | invoke (routine : Nat) (returnsValue : Bool)
  /-- Box a value. -/
  | box (rep : Rep)
  /-- Check that a reference is an instance, or fail. -/
  | castClass (rep : Rep)
  /-- Keep a reference that is an instance, or push null. -/
  | isInst (rep : Rep)
  /-- Wrap a payload. -/
  | newNullable (payload : Payload)
  /-- Whether the nullable at an address has a payload. -/
  | hasValue (payload : Payload)
  /-- The payload of the nullable at an address. -/
  | getValue (payload : Payload)
  /-- Branch. -/
  | br (target : Label)
  /-- Branch if the top operand is false. -/
  | brFalse (target : Label)
  /-- Place a label. -/
  | mark (label : Label)
  /-- Leave the method. -/
  | ret
  deriving DecidableEq

namespace Instr

/-- The run-time operation that an instruction calls. -/
def op? : Instr → Option Op
  | call op | callVirt op | newObj op => some op
  | _ => none

/-- The instruction calls into the run-time. -/
def isRuntimeCall (i : Instr) : Bool := i.op?.isSome

/-- The number of operands an instruction takes and leaves when `depth` operands are there.
A call takes its effect from the catalog, and none if the operation is not bound; leaving the
method takes all operands. -/
def effect (C : Catalog) (depth : Nat) : Instr → Nat × Nat
  | nop | br _ | mark _ => (0, 0)
  | pop | stLoc _ | brFalse _ => (1, 0)
  | dup => (1, 2)
  | ldNull | ldcI4 _ | ldcI8 _ | ldcR4 _ | ldcR8 _ | ldStr _ => (0, 1)
  | ldLoc _ | ldLocA _ | ldArg _ | ldArgA _ | ldContext | ldTypeHandle _ => (0, 1)
  | convI4 | convI8 | convR4 | convR8 => (1, 1)
  | ceq | cgtUn => (2, 1)
  | call op | callVirt op | newObj op =>
    match C.get? op with
    | some m => (m.pops, m.pushes)
    | none => (0, 0)
  | invoke _ returnsValue => (0, returnsValue.toNat)
  | box _ | castClass _ | isInst _ | newNullable _ | hasValue _ | getValue _ => (1, 1)
  | ret => (depth, 0)

/-- How an instruction is written. -/
def toString : Instr → String
  | nop => "nop"
  | pop => "pop"
  | dup => "dup"
  | ldNull => "ldnull"
  | ldcI4 i => "ldc.i4 " ++ i.toInt.repr
  | ldcI8 i => "ldc.i8 " ++ i.toInt.repr
  | ldcR4 x => "ldc.r4 " ++ x.toString
  | ldcR8 x => "ldc.r8 " ++ x.toString
  | ldStr i => "ldstr #" ++ i.repr
  | ldLoc i => "ldloc " ++ i.repr
  | ldLocA i => "ldloca " ++ i.repr
  | stLoc i => "stloc " ++ i.repr
  | ldArg i => "ldarg " ++ i.repr
  | ldArgA i => "ldarga " ++ i.repr
  | ldContext => "ldctx"
  | ldTypeHandle (some c) => "ldtoken class#" ++ c.repr
  | ldTypeHandle none => "ldtoken <global>"
  | convI4 => "conv.i4"
  | convI8 => "conv.i8"
  | convR4 => "conv.r4"
  | convR8 => "conv.r8"
  | ceq => "ceq"
  | cgtUn => "cgt.un"
  | call op => "call " ++ op.name
  | callVirt op => "callvirt " ++ op.name
  | newObj op => "newobj " ++ op.name
  | invoke r returnsValue => "invoke #" ++ r.repr ++ if returnsValue then " (true)" else " (false)"
  | box r => "box " ++ r.toString
  | castClass r => "castclass " ++ r.toString
  | isInst r => "isinst " ++ r.toString
  | newNullable p => "newobj " ++ (Rep.nullable p).toString
  | hasValue p => "has_value " ++ (Rep.nullable p).toString
  | getValue p => "get_value " ++ (Rep.nullable p).toString
  | br l => "br " ++ l.toString
  | brFalse l => "brfalse " ++ l.toString
  | mark l => l.toString ++ ":"
  | ret => "ret"

instance : ToString Instr := ⟨toString⟩

end Instr

end Recast
