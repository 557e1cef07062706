import Recast.Rep

/-!
# Scratch locals

A value whose operations take an address has to lie in a local. The pool hands out one scratch
local per representation and statement, and never declares a second one for the same
representation: what a statement has released, the next one takes again.

* `ScratchPool.take` gives the slot of a representation, and keeps what it has changed when it
  fails;
* `ScratchPool.reset` ends the statement.
-/

namespace Recast

/-- The scratch locals declared so far, each under the representation it holds. -/
structure ScratchPool where
  /-- Those in use by the statement at hand. -/
  active : List (Rep × Nat)
  /-- Those no longer in use; the one released last for a representation comes first. -/
  released : List (Rep × Nat)
  /-- The number of those declared. -/
  declared : Nat
  deriving DecidableEq

namespace ScratchPool

/-- Nothing has been declared yet. -/
def empty : ScratchPool := ⟨[], [], 0⟩

variable (P : ScratchPool)

/-- Put a slot to use. -/
def activate (r : Rep) (slot : Nat) : ScratchPool := { P with active := (r, slot) :: P.active }

/-- Take out the slot released last for a representation, if there is one. -/
def pop (r : Rep) : Option Nat × ScratchPool :=
  match P.released.lookup r with
  | some slot => (some slot, { P with released := P.released.erase (r, slot) })
  | none => (none, P)

/-- Count a slot that has been declared. -/
def count : ScratchPool := { P with declared := P.declared + 1 }

/-- Take hold of the slot of a representation in the statement at hand. A slot that is neither in
use nor released is declared by `declare`, which acts on a state of its own and may fail; then
everything stays as it is at that point. -/
def take {σ ε : Type} (declare : Rep → EStateM ε σ Nat) (r : Rep) :
    EStateM ε (ScratchPool × σ) Nat := fun (P, s) =>
  match P.active.lookup r with
  | some slot => .ok slot (P, s)
  | none =>
    match P.pop r with
    | (some slot, P) => .ok slot (P.activate r slot, s)
    | (none, P) =>
      match declare r s with
      | .ok slot s => .ok slot (P.count.activate r slot, s)
      | .error e s => .error e (P, s)

/-- Take hold of the slot of a representation where nothing goes on after a failure. -/
def acquire {σ ε : Type} (declare : Rep → σ → Except ε (Nat × σ)) (r : Rep) (s : σ) :
    Except ε (Nat × ScratchPool × σ) :=
  let declare (r : Rep) : EStateM ε σ Nat := fun s =>
    match declare r s with
    | .ok (slot, s') => .ok slot s'
    | .error e => .error e s
  match take declare r (P, s) with
  | .ok slot (P', s') => .ok (slot, P', s')
  | .error e _ => .error e

/-- End the statement: its slots are released. -/
def reset : ScratchPool := { P with active := [], released := P.active ++ P.released }

end ScratchPool

end Recast
