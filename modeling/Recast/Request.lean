import Recast.Convert.Evaluate
import Recast.Session

/-!
# Requests

Everything that a code generator may ask of a session, as data, so that a method's code
generation is a list of requests.

* `Request.plan` is the plan of a request that is one;
* `Request.answer` carries out a request and answers it;
* `Request.exprAfter` is what the expression of a request has become.
-/

namespace Recast

/-- What may be asked of a session. -/
inductive Request where
  /-- Emit an instruction. -/
  | emit (i : Instr)
  /-- Intern a text. -/
  | intern (t : String)
  /-- Declare a number of locals of one representation. -/
  | declare (r : Rep) (count : Nat)
  /-- Define a label. -/
  | label
  /-- End the statement. -/
  | endStatement
  /-- Spill the value on the stack. -/
  | spill (source : Rep)
  /-- Convert the value on the stack. -/
  | convert (source : Rep) (hint : Hint) (target : Rep)
  /-- Convert the value on the stack to a truth value. -/
  | convertToBool (source : Rep) (hint : Hint) (negated : Bool)
  /-- Ask for an array on the stack. -/
  | asArray (source : Rep)
  /-- Ask for an instance on the stack. -/
  | asObject (source : Rep)
  /-- Widen an integer on the stack. -/
  | widenInt (source : Rep)
  /-- Parse text on the stack. -/
  | parseText (source : Rep)
  /-- Dereference an alias on the stack. -/
  | dereference (source : Rep)
  /-- Narrow the union on the stack. -/
  | narrow (source : Rep) (hint : Hint)
  /-- Narrow the union in a place. -/
  | narrowPlace (p : Place) (hint : Hint)
  /-- Load a constant in a representation. -/
  | loadConstant (c : Constant) (target : Rep)
  /-- Evaluate an expression. -/
  | evaluate (e : Expr)
  /-- Evaluate an expression into a representation. -/
  | convertExpr (e : Expr) (target : Rep)
  /-- Evaluate an expression to a truth value. -/
  | convertExprToBool (e : Expr) (negated : Bool)
  /-- Evaluate a numeric expression to a float. -/
  | numberToDouble (e : Expr)
  /-- Evaluate an expression to an array. -/
  | castToArray (e : Expr)

/-- The answer to a request. -/
inductive Reply where
  /-- It is done. -/
  | done
  /-- A slot or an index. -/
  | index (n : Nat)
  /-- A label. -/
  | label (l : Label)
  /-- The representation on the stack. -/
  | rep (r : Rep)
  /-- The representation on the stack, unless nothing was emitted. -/
  | rep? (r : Option Rep)
  deriving DecidableEq

namespace Request

variable (S : Scope) (o : Options)

/-- The plan of an optional conversion. -/
def optionally (plan : Option (Script Rep)) : Script Reply :=
  match plan with
  | some p => return .rep? (some (← p))
  | none => return .rep? none

/-- The plan of a request, if it is one that is planned. -/
def plan? : Request → Option (Script Reply)
  | convert source hint target => some (.rep <$> S.convert source hint target)
  | convertToBool source hint negated => some (.rep <$> S.convertToBool source hint negated)
  | asArray source => some (.rep <$> S.asArray source)
  | asObject source => some (.rep <$> S.asObject source)
  | widenInt source => some (.rep <$> Scope.widenInt source)
  | parseText source => some (.rep <$> S.parseText source)
  | dereference source => some (.rep <$> S.dereference source)
  | narrow source hint => some (optionally (S.narrow? source hint))
  | narrowPlace p hint => some (optionally (S.narrowPlace? p hint))
  | loadConstant c target => some (optionally (S.loadConstant? c target))
  | evaluate e => some (.rep <$> S.evaluate e)
  | convertExpr e target => some (.rep <$> S.convertExpr o e target)
  | convertExprToBool e negated => some (.rep <$> S.convertExprToBool o e negated)
  | numberToDouble e => some (.rep <$> S.numberToDouble o e)
  | castToArray e => some (.rep <$> S.castToArray e)
  | emit _ | intern _ | declare .. | label | endStatement | spill _ => none

/-- Declare a number of locals; the answer is the last slot, or 0 if there is none. -/
def declareMany (r : Rep) : Nat → Action Nat
  | 0 => return 0
  | 1 => Session.declare r
  | n + 1 => do
    let _ ← Session.declare r
    declareMany r n

/-- Carry out a request and answer it. -/
def answer (q : Request) : Action Reply :=
  match q with
  | emit i => do
    Session.emit S.catalog i
    return .done
  | intern t => .index <$> Session.intern t
  | declare r count => .index <$> declareMany r count
  | label => .label <$> Session.defineLabel
  | endStatement => do
    Session.endStatement
    return .done
  | spill source => .index <$> Session.spill S.catalog source
  | q =>
    match q.plan? S o with
    | some p => Session.run S.catalog p
    | none => return .done

/-- The expression of a request, with the access mode that the request has bound. -/
def exprAfter? : Request → Option Expr
  | evaluate e => some e
  | convertExpr e target => some (e.consumedAs target)
  | convertExprToBool e _ => some (e.consumedAs .bool)
  | numberToDouble e | castToArray e => some e.readByValue
  | _ => none

end Request

end Recast
