import Recast.Rep

/-!
# Flow hints

A hint is the set of representation families a value may have at a program point. The empty
set says that nothing is known. A hint keeps bits that name no family: they make it prove
nothing, but they are never lost.

* `Rep.hint` is the family set of a representation;
* `Hint.single` is the one representation that a hint proves.
-/

namespace Recast

/-- A set of representation families, one bit each. -/
structure Hint where
  /-- The families in the set. -/
  bits : UInt16
  deriving DecidableEq

namespace Hint

/-- Nothing is known. -/
def empty : Hint := ⟨0⟩

/-- The value may be null. -/
def null : Hint := ⟨0x001⟩

/-- The value may be a truth value. -/
def bool : Hint := ⟨0x002⟩

/-- The value may be an integer. -/
def long : Hint := ⟨0x004⟩

/-- The value may be a float. -/
def double : Hint := ⟨0x008⟩

/-- The value may be immutable text. -/
def string : Hint := ⟨0x010⟩

/-- The value may be mutable text. -/
def writableString : Hint := ⟨0x020⟩

/-- The value may be a collection. -/
def array : Hint := ⟨0x040⟩

/-- The value may be an instance. -/
def object : Hint := ⟨0x080⟩

/-- The value may be a resource. -/
def resource : Hint := ⟨0x100⟩

/-- The value may be reached through an alias. -/
def ref : Hint := ⟨0x200⟩

/-- No value is produced. -/
def void : Hint := ⟨0x400⟩

/-- The families in either of two hints. -/
def union (h k : Hint) : Hint := ⟨h.bits ||| k.bits⟩

instance : Union Hint := ⟨union⟩

/-- Every family of values. -/
def any : Hint :=
  null ∪ bool ∪ long ∪ double ∪ string ∪ writableString ∪ array ∪ object ∪ resource

/-- All families of `k` are in `h`. -/
def contains (h k : Hint) : Bool := h.bits &&& k.bits == k.bits

/-- The set holds nothing. -/
def isEmpty (h : Hint) : Bool := h.bits == 0

/-- The hint of the value behind a possible alias. -/
def withoutRef (h : Hint) : Hint := ⟨h.bits &&& ~~~ref.bits⟩

/-- The one representation that the hint proves. Only a hint of exactly one family proves any;
null and void describe the absence of a value and never do. -/
def single (h : Hint) : Option Rep :=
  let k := h.withoutRef
  if k = bool then some .bool
  else if k = long then some .int64
  else if k = double then some .float64
  else if k = string then some .text
  else if k = writableString then some .mutText
  else if k = array then some .array
  else if k = object then some .root
  else if k = resource then some .resource
  else none

end Hint

/-- The families that a payload belongs to. -/
def Payload.hint : Payload → Hint
  | bool => .bool
  | int32 | int64 => .long
  | float32 | float64 => .double
  | char => .string
  | number => .long ∪ .double
  | key => .long ∪ .string

/-- The families that a value of the representation belongs to. -/
def Rep.hint : Rep → Hint
  | .void => .void
  | .bool => .bool
  | .int32 | .int64 => .long
  | .float32 | .float64 => .double
  | .char | .text => .string
  | .mutText => .writableString
  | .number => .long ∪ .double
  | .value => .any
  | .key => .long ∪ .string
  | .array => .array
  | .alias => .ref
  | .resource => .resource
  | .callable | .bytes | .object _ => .object
  | .nullable p => p.hint ∪ .null

/-- A payload belongs to the families of its representation. -/
@[simp]
theorem Rep.hint_rep (p : Payload) : p.rep.hint = p.hint := by
  cases p <;> rfl

end Recast
