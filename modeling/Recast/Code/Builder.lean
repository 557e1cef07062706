import Recast.Code.Instr

/-!
# Building code

A builder gathers instructions in order and keeps what they refer to: interned texts, locals
and labels. It follows the depth of the operand stack, so that the greatest depth is known
when the code is complete.

* `Builder.emit` appends an instruction, and refuses one that takes operands that are not there;
* `Builder.intern` gives a text one index, however often it is asked for;
* `Builder.declare?` gives every local a slot of its own, up to a limit;
* `Code` is what a builder leaves behind.
-/

namespace Recast

/-- A refusal that ends code generation at once. -/
inductive Fault where
  /-- More operands are taken than are on the stack. -/
  | underflow (pops depth : Nat)
  /-- A value was to be addressed that no operation takes by address. -/
  | notAddressed (rep : Rep)
  deriving DecidableEq

/-- The text of a refusal. -/
def Fault.message : Fault → String
  | underflow pops depth =>
    "Stack underflow: trying to pop " ++ pops.repr ++ " but depth is " ++ depth.repr
  | notAddressed r => r.toString ++ " is not addressed"

/-- Complete code. -/
structure Code where
  /-- The instructions in order. -/
  instrs : Array Instr
  /-- The interned texts by index. -/
  texts : Array String
  /-- The representation of each local by slot. -/
  locals : Array Rep
  /-- The greatest depth of the operand stack. -/
  maxDepth : Nat

/-- Code under construction. -/
structure Builder where
  /-- The instructions so far. -/
  instrs : Array Instr
  /-- The interned texts by index. -/
  texts : Array String
  /-- The representation of each local by slot. -/
  locals : Array Rep
  /-- The number of labels defined. -/
  labels : Nat
  /-- The depth at the first branch to each label branched to. -/
  branchDepths : List (Label × Nat)
  /-- The depth of the operand stack. -/
  depth : Nat
  /-- The greatest depth so far. -/
  maxDepth : Nat

namespace Builder

/-- Nothing has been built yet. -/
def empty : Builder := ⟨#[], #[], #[], 0, [], 0, 0⟩

variable (b : Builder)

/-- The greatest number of locals. -/
def maxLocals : Nat := 65535

/-- The code gathered so far. -/
def finish : Code := ⟨b.instrs, b.texts, b.locals, b.maxDepth⟩

/-- The depth recorded at the first branch to a label. -/
def branchDepth? (l : Label) : Option Nat := b.branchDepths.lookup l

/-- The depth at which an instruction starts. A label that was branched to is reached with the
depth of the branch, as what stands before it may not be able to reach it. -/
def startDepth : Instr → Nat
  | .mark l => (b.branchDepth? l).getD b.depth
  | _ => b.depth

/-- Record the depth at a branch; the first branch to a label decides. -/
def recordBranch (depth : Nat) : Instr → List (Label × Nat)
  | .br l | .brFalse l =>
    if (b.branchDepth? l).isSome then b.branchDepths else (l, depth) :: b.branchDepths
  | _ => b.branchDepths

/-- Append an instruction. If it takes more operands than there are, nothing changes. -/
def emit (C : Catalog) (i : Instr) : Except Fault Builder :=
  let start := b.startDepth i
  let (pops, pushes) := i.effect C start
  if start < pops then .error (.underflow pops start)
  else
    let left := start - pops
    .ok { b with
      instrs := b.instrs.push i
      branchDepths := b.recordBranch left i
      depth := left + pushes
      maxDepth := max b.maxDepth (left + pushes) }

/-- The index of a text; a text that is new takes the next one. -/
def intern (s : String) : Nat × Builder :=
  match b.texts.idxOf? s with
  | some index => (index, b)
  | none => (b.texts.size, { b with texts := b.texts.push s })

/-- A fresh local, unless there are too many. -/
def declare? (r : Rep) : Option (Nat × Builder) :=
  if b.locals.size < maxLocals then
    some (b.locals.size, { b with locals := b.locals.push r })
  else none

/-- A fresh label. -/
def defineLabel : Label × Builder := (⟨b.labels⟩, { b with labels := b.labels + 1 })

end Builder

end Recast
