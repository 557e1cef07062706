import Recast.Rep

/-!
# Classes

A class table lists the classes known to a program. The root class stands first, every other
class has a base, and a name is declared once.

* `ClassTable.derives` follows base links from a class to an ancestor;
* `ClassTable.hasFlags` asks a class or one of its ancestors for capabilities;
* `ClassTable.assignable` says when a value may be used as another representation unchanged.
-/

namespace Recast

/-- Capabilities that a class declares, one bit each. -/
structure ClassFlags where
  /-- The declared capabilities. -/
  bits : UInt8
  deriving DecidableEq

namespace ClassFlags

/-- No capability. -/
def empty : ClassFlags := ⟨0⟩

/-- Instances can be called. -/
def callable : ClassFlags := ⟨1⟩

/-- Instances know how to turn themselves into an array. -/
def convertible : ClassFlags := ⟨2⟩

/-- All capabilities of `g` are in `f`. -/
def contains (f g : ClassFlags) : Bool := f.bits &&& g.bits == g.bits

end ClassFlags

/-- What a table says of one class. -/
structure ClassInfo where
  /-- The name it was declared under. -/
  name : String
  /-- The class it derives from; only the root class has none. -/
  base : Option ClassId
  /-- The capabilities it declares itself. -/
  flags : ClassFlags
  deriving DecidableEq

/-- The classes of a program; a class is named by its position. -/
structure ClassTable where
  /-- The declared classes in order. -/
  classes : Array ClassInfo

namespace ClassTable

/-- The table that holds the root class alone. -/
def new : ClassTable := ⟨#[⟨"object", none, .empty⟩]⟩

variable (T : ClassTable)

/-- What the table says of a class. -/
def get? (c : ClassId) : Option ClassInfo := T.classes[c]?

/-- The class declared under a name. -/
def lookup? (name : String) : Option ClassId := T.classes.findIdx? (·.name == name)

/-- The name of a class, or a stand-in for a class that the table does not know. -/
def name (c : ClassId) : String :=
  match T.get? c with
  | some info => info.name
  | none => "<unknown>"

/-- The class that `c` derives from. -/
def base? (c : ClassId) : Option ClassId := (T.get? c).bind (·.base)

/-- Declare a class under a base, the root class if none is given. A name that is taken keeps
its class, and nothing changes. -/
def declare (name : String) (base : Option ClassId) (flags : ClassFlags) : ClassId × ClassTable :=
  match T.lookup? name with
  | some c => (c, T)
  | none => (T.classes.size, ⟨T.classes.push ⟨name, some (base.getD .root), flags⟩⟩)

/-! ### Chains of bases -/

/-- The first `n + 1` classes met on the way up from `c`. -/
def ancestors : Nat → ClassId → List ClassId
  | 0, c => [c]
  | n + 1, c => c :: match T.base? c with
    | some b => ancestors n b
    | none => []

/-- The class and all its ancestors: a chain without a cycle is no longer than the table, but
for one last class that the table does not know. -/
def chain (c : ClassId) : List ClassId := T.ancestors T.classes.size c

/-- `c` is `ancestor` or derives from it. -/
def derives (c ancestor : ClassId) : Bool := (T.chain c).contains ancestor

/-- `c` or one of its ancestors declares `flags`. -/
def hasFlags (c : ClassId) (flags : ClassFlags) : Bool :=
  (T.chain c).any fun a => match T.get? a with
    | some info => info.flags.contains flags
    | none => false

/-- A value of `source` may be used as `target` as it is. Distinct representations take part
only if both are references, and every reference is assignable to the root class. -/
def assignable (source target : Rep) : Bool :=
  if source = target then true
  else if !source.isReference || !target.isReference then false
  else if target = .root then true
  else match source, target with
    | .object a, .object b => T.derives a b
    | .object a, .callable => T.hasFlags a .callable
    | _, _ => false

end ClassTable

end Recast
