import Recast.Convert.Scope
import Recast.Hint
import Recast.Place

/-!
# Narrowing by hints

A union that a hint proves to hold one representation is read by the typed accessor of that
representation, without a test at run time.

* `accessor?` is the accessor that a hint admits;
* `Scope.narrow?` reads a union on the stack, `Scope.narrowPlace?` one in storage.
-/

namespace Recast

/-- The typed accessor for a union of representation `source` that the hint proves to hold a
single representation. Behind an alias the accessor would see the alias, so a hint that admits
one proves nothing here. -/
def accessor? (source : Rep) (hint : Hint) : Option Op :=
  if hint.contains .ref then none
  else match source, hint.single with
    | .value, some .int64 => some .valueLong
    | .value, some .float64 => some .valueDouble
    | .value, some .bool => some .valueBool
    | .value, some .text => some .valueText
    | .value, some .mutText => some .valueMutText
    | .value, some .array => some .valueArray
    | .value, some (.object _) => some .valueObject
    | .number, some .int64 => some .numberLong
    | .number, some .float64 => some .numberDouble
    | _, _ => none

namespace Scope

variable (S : Scope)

/-- Narrow the union on the stack, if the hint admits it; the result is the representation it
is narrowed to. -/
def narrow? (source : Rep) (hint : Hint) : Option (Script Rep) :=
  (accessor? source hint).map fun op => S.callByAddress source op

/-- Narrow the union in a place through its address, if the hint admits it and the place has
an address; the value itself is not loaded. -/
def narrowPlace? (p : Place) (hint : Hint) : Option (Script Rep) :=
  match p.rep?, p.hasAddress with
  | some source, true => (accessor? source hint).map fun op => do
    let _ ← p.loadAddress
    S.call op
  | _, _ => none

end Scope

end Recast
