import Recast.Code.Builder
import Recast.Convert.Reshape
import Recast.Code.ScratchPool

/-!
# Sessions

A session is the state of one method's code generation: the code so far, its scratch locals, and
what is left of a quota on locals and texts. Plans are carried out in it.

* `Session.perform` takes one step of a plan;
* `Session.run` carries out a plan up to its end, to the first step that cannot be taken, or to
  the error the plan ends in. What was emitted before stays.
-/

namespace Recast

/-- Why a plan was not carried out to its end. -/
inductive Halt where
  /-- The conversion failed; the session goes on. -/
  | failed (e : ConvertError)
  /-- The session ends. -/
  | refused (f : Fault)
  deriving DecidableEq

/-- The state of a method's code generation. -/
structure Session where
  /-- The code so far. -/
  builder : Builder
  /-- The scratch locals. -/
  scratch : ScratchPool
  /-- How many locals may still be declared, if that is limited. -/
  localQuota : Option Nat
  /-- How many times a text may still be interned, if that is limited. -/
  textQuota : Option Nat

/-- An action on a session. What it changed stays when it halts. -/
abbrev Action := EStateM Halt Session

namespace Session

/-- A session with nothing generated yet. -/
def new (localQuota textQuota : Option Nat) : Session :=
  ⟨.empty, .empty, localQuota, textQuota⟩

/-! ### The code -/

/-- Declare a local. A quota that is used up refuses it before the code is asked. -/
def declareLocal (r : Rep) (s : Session) : Except ConvertError (Nat × Session) :=
  if s.localQuota = some 0 then .error .tooManyLocals
  else
    match s.builder.declare? r with
    | some (slot, b) =>
      .ok (slot, { s with builder := b, localQuota := s.localQuota.map (· - 1) })
    | none => .error .tooManyLocals

/-- Intern a text, within the quota. -/
def internText (t : String) (s : Session) : Except ConvertError (Nat × Session) :=
  if s.textQuota = some 0 then .error .tooManyTexts
  else
    let (index, b) := s.builder.intern t
    .ok (index, { s with builder := b, textQuota := s.textQuota.map (· - 1) })

/-- An operation on the session that leaves it as it was when it fails. -/
def attempt {α : Type} (f : Session → Except ConvertError (α × Session)) : Action α := fun s =>
  match f s with
  | .ok (a, s') => .ok a s'
  | .error e => .error (.failed e) s

/-- Emit an instruction. -/
def emit (C : Catalog) (i : Instr) : Action Unit := fun s =>
  match s.builder.emit C i with
  | .ok b => .ok () { s with builder := b }
  | .error f => .error (.refused f) s

/-- Declare a local. -/
def declare (r : Rep) : Action Nat := attempt (declareLocal r)

/-- Intern a text. -/
def intern (t : String) : Action Nat := attempt (internText t)

/-- The scratch local of a representation. -/
def acquire (r : Rep) : Action Nat := fun s =>
  match ScratchPool.take declare r (s.scratch, s) with
  | .ok slot (P, s') => .ok slot { s' with scratch := P }
  | .error e (P, s') => .error e { s' with scratch := P }

/-- Define a label. -/
def defineLabel : Action Label := fun s =>
  let (l, b) := s.builder.defineLabel
  .ok l { s with builder := b }

/-- End the statement; its scratch locals may be used again. -/
def endStatement : Action Unit := fun s => .ok () { s with scratch := s.scratch.reset }

/-! ### Plans -/

/-- The two branch targets made last: for the absent value and for the end. -/
def forkLabels (s : Session) : Label × Label :=
  (⟨s.builder.labels - 2⟩, ⟨s.builder.labels - 1⟩)

/-- Take a step of a plan. -/
def perform (C : Catalog) : Step → Action Unit
  | .emit i => emit C i
  | .text t => do emit C (.ldStr (← intern t))
  | .invoke routine returnsValue => do emit C (.invoke (← intern routine) returnsValue)
  | .reserve r => do let _ ← acquire r
  | .store r => do emit C (.stLoc (← acquire r))
  | .address r => do emit C (.ldLocA (← acquire r))
  | .fork => do
    let _ ← defineLabel
    let _ ← defineLabel
  | .brAbsent => do emit C (.brFalse (← get).forkLabels.1)
  | .brEnd => do emit C (.br (← get).forkLabels.2)
  | .markAbsent => do emit C (.mark (← get).forkLabels.1)
  | .markEnd => do emit C (.mark (← get).forkLabels.2)

/-- Take the steps of a plan in order. -/
def performAll (C : Catalog) : List Step → Action Unit
  | [] => return
  | t :: ts => do
    perform C t
    performAll C ts

/-- Carry out a plan. -/
def run {α : Type} (C : Catalog) (p : Script α) : Action α := do
  performAll C p.steps
  match p.result with
  | .ok a => return a
  | .error e => throw (.failed e)

/-- Move the value on the stack to its scratch local and push the address in its place; the
result is the slot. Only values that need an address are moved. -/
def spill (C : Catalog) (r : Rep) : Action Nat := do
  if !r.needsAddress then throw (.refused (.notAddressed r))
  let slot ← acquire r
  emit C (.stLoc slot)
  emit C (.ldLocA slot)
  return slot

end Session

end Recast
