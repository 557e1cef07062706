import Recast.Convert.Script

/-!
# Places

A place is a storage location that can be read. Conversions only load through it: its value, or
its address if it has one.
-/

namespace Recast

/-- A storage location. -/
structure Place where
  /-- The representation stored there, if it is known beforehand. -/
  rep? : Option Rep
  /-- The place claims to have an address. -/
  hasAddress : Bool
  /-- Push the stored value; the result is its representation. -/
  load : Script Rep
  /-- Push the address of the storage; the result is the representation stored there. -/
  loadAddress : Script Rep

namespace Place

/-- Push what a place holds, or its address, by a single instruction. A place that has nothing to
give of the kind refuses. -/
def read (i : Instr) : Option Rep → Script Rep
  | some r => do
    .emit i
    return r
  | none => .fail .noAddress

/-- A place read by a single instruction for the value and one for the address. -/
def direct (r : Rep) (load loadAddress : Instr) : Place where
  rep? := some r
  hasAddress := true
  load := read load r
  loadAddress := read loadAddress r

/-- A local variable. -/
def «local» (slot : Nat) (r : Rep) : Place := direct r (.ldLoc slot) (.ldLocA slot)

/-- A parameter of the routine. -/
def param (index : Nat) (r : Rep) : Place := direct r (.ldArg index) (.ldArgA index)

/-- An argument of which less may be known than it turns out to be, or more: what is known
beforehand, whether an address is claimed, and what loading the value and the address give. -/
def argument (index : Nat) (rep? : Option Rep) (hasAddress : Bool)
    (loaded addressed : Option Rep) : Place where
  rep? := rep?
  hasAddress := hasAddress
  load := read (.ldArg index) loaded
  loadAddress := read (.ldArgA index) addressed

end Place

end Recast
