import Recast.Constant
import Recast.Place

/-!
# Expressions

An expression carries what code generation has to know of it: how it is evaluated, what flow
analysis found out about its value, and how the value is going to be used.

* `Expr.known?` is its value, if that is known beforehand;
* `Expr.consumedAs` binds the access mode when the expression is asked for a representation.
-/

namespace Recast

/-- How the value of an expression is used. -/
inductive Access where
  /-- It is discarded. -/
  | discard
  /-- It is read by value. -/
  | read
  /-- It is read by reference, through an alias. -/
  | readRef
  deriving DecidableEq

/-- How an expression is evaluated. -/
inductive Expr.Kind where
  /-- It is a constant. -/
  | literal (c : Constant)
  /-- It reads a storage location. -/
  | load (p : Place)
  /-- It calls a routine of the program, about which nothing else is known. -/
  | invoke (routine : String) (returns : Rep)

/-- An expression as code generation sees it. -/
structure Expr where
  /-- How it is evaluated. -/
  kind : Expr.Kind
  /-- The families its value may belong to. -/
  hint : Hint
  /-- The value that constant propagation has proven for it. -/
  proven : Option Constant
  /-- How its value is used. -/
  access : Access

namespace Expr

/-- A literal, hinted by its constant. -/
def literal (c : Constant) : Expr := ⟨.literal c, c.hint, none, .discard⟩

/-- The value of the expression, if it is known beforehand. That of a call never is: using it
would drop the effects of the call. -/
def known? (e : Expr) : Option Constant :=
  match e.kind with
  | .literal c => some c
  | .load _ => e.proven
  | .invoke .. => none

/-- Evaluating the expression has no effects. -/
def isPure (e : Expr) : Bool :=
  match e.kind with
  | .invoke .. => false
  | _ => true

/-- The representation that evaluating the expression is expected to give. -/
def staticRep (e : Expr) : Rep :=
  match e.kind with
  | .literal c => c.natural
  | .load p => p.rep?.getD .value
  | .invoke _ returns => returns

/-- The expression with its access mode bound to a use: discarded for no value, otherwise read
by value, unless it is to be read by reference. -/
def consumedAs (e : Expr) (target : Rep) : Expr :=
  { e with
    access :=
      if target = .void then .discard
      else if e.access = .readRef then .readRef
      else .read }

/-- The expression read by value. -/
def readByValue (e : Expr) : Expr := { e with access := .read }

end Expr

end Recast
