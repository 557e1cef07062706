import Recast.Convert.Folding
import Recast.Convert.Reshape
import Recast.Expr
import Recast.Options

/-!
# Conversions of expressions

`Scope.convertExpr` decides how an expression is evaluated when it is wanted in a
representation. A known value is loaded in that representation, a union in storage is narrowed
or read by a typed operation through its address, and otherwise the expression is evaluated and
its value converted.

An expression that is read by reference is neither folded nor read through its address for its
value, so that the reference is kept.

* `Scope.evaluate` evaluates an expression and leaves the representation it has;
* `Scope.convertExpr` evaluates it into a wanted representation;
* `Scope.castToArray` makes an array of any value, and never null.
-/

namespace Recast

namespace Scope

variable (S : Scope) (o : Options)

/-! ### Evaluation -/

/-- Load a constant in its natural representation. -/
def evaluateLiteral : Constant → Script Rep
  | .null => S.call .valueNull
  | .bool b => do
    loadBool b
    return .bool
  | .long i => do
    .emit (.ldcI8 i)
    return .int64
  | .double x => do
    .emit (.ldcR8 x)
    return .float64
  | .text s => .text s

/-- Load an alias to the storage of a place. A union in storage is made to hold an alias itself;
any other value is copied into a new one. -/
def loadAlias (p : Place) (hint : Hint) : Script Rep :=
  if p.rep? = some .value ∧ p.hasAddress then do
    let _ ← p.loadAddress
    S.call .valueEnsureAlias
  else do
    let source ← p.load
    S.reshape source hint .alias

/-- Evaluate an expression; the result is the representation it leaves on the stack. -/
def evaluate (e : Expr) : Script Rep :=
  match e.kind with
  | .literal c => S.evaluateLiteral c
  | .load p => if e.access = .readRef then S.loadAlias p e.hint else p.load
  | .invoke routine returns => do
    .step (.invoke routine (returns != .void))
    return returns

/-! ### Evaluation into a wanted representation -/

/-- The typed operation that reads a place of the representation `source` through its address as
`target`, and saves the copy of the value. -/
def addressOp? : Rep → Rep → Option Op
  | .number, .int64 => some .numberToLong
  | .number, .float64 => some .numberToDouble
  | .number, .text => some .numberToText
  | .value, .text => some .valueToText
  | .int64, .text => some .longAddrToText
  | .value, target => if target = .root then some .valueToClass else none
  | _, _ => none

/-- Read a place through its address by a typed operation, if there is one. -/
def readThroughAddress? (p : Place) (target : Rep) : Option (Script Rep) :=
  match p.rep?, p.hasAddress with
  | some source, true => (addressOp? source target).map fun op => do
    let _ ← p.loadAddress
    S.call op
  | _, _ => none

/-- The known value of an expression in the wanted representation, if it can be folded. -/
def folded? (e : Expr) (target : Rep) : Option (Script Rep) :=
  if o.foldConstants then e.known?.bind (S.loadConstant? · target) else none

/-- A typed read of the place of an expression, if it is a load that admits one: narrowing by the
hint first, unless the place has the wanted representation as it is. -/
def typedRead? (e : Expr) (target : Rep) : Option (Script Rep) :=
  match e.kind with
  | .load p =>
    let narrowed? :=
      if p.rep? = some target then none
      else (S.narrowPlace? p e.hint).map fun narrowing => do
        let narrowed ← narrowing
        S.reshape narrowed narrowed.hint target
    narrowed? <|> if o.placeFastPaths then S.readThroughAddress? p target else none
  | _ => none

/-- Evaluate an expression and convert its value. The dynamic union can hold a reference, so one
that was asked for is kept there. -/
def evaluateAndReshape (e : Expr) (target : Rep) : Script Rep := do
  let source ← S.evaluate e
  if source = .alias ∧ target = .value ∧ e.access = .readRef then S.call .valueFromAlias
  else S.reshape source e.hint target

/-- Evaluate an expression for its effects only. -/
def discardExpr (e : Expr) : Script Rep :=
  if o.elidePureDiscards ∧ e.isPure then return .void
  else do
    let source ← S.evaluate e
    .drop source
    return .void

/-- Evaluate an expression, whose access mode is bound, into a wanted representation. -/
def reshapeExpr (e : Expr) (target : Rep) : Script Rep :=
  if target = .void then S.discardExpr o e
  else if e.access = .readRef then S.evaluateAndReshape e target
  else (S.folded? o e target <|> S.typedRead? o e target).getD (S.evaluateAndReshape e target)

/-- Evaluate an expression into a wanted representation. Afterwards the expression is
`e.consumedAs target`. -/
def convertExpr (e : Expr) (target : Rep) : Script Rep :=
  (S.reshapeExpr o (e.consumedAs target) target).mapError (.inConversion e.staticRep target)

/-- Evaluate to a truth value, and negate it if asked to. -/
def convertExprToBool (e : Expr) (negated : Bool) : Script Rep := do
  let _ ← S.convertExpr o e .bool
  if negated then .negate
  return .bool

/-! ### Evaluation with rules of its own -/

/-- The value of a numeric constant as a float. -/
def floatOf? : Constant → Option Binary64
  | .long i => some (.ofInt i.toInt)
  | .double x => some x
  | .bool b => some (.ofInt b.toNat)
  | _ => none

/-- Evaluate a numeric expression to a float. Afterwards the expression is `e.readByValue`. -/
def numberToDouble (e : Expr) : Script Rep :=
  let known := if o.foldConstants then e.known?.bind floatOf? else none
  match known with
  | some x => do
    .emit (.ldcR8 x)
    return .float64
  | none => do
    let source ← S.evaluate e.readByValue
    S.convert source e.hint .float64

/-- Evaluate to an array that is never null. Instances that know how to turn themselves into an
array are asked to; for all else the dynamic union knows. Afterwards the expression is
`e.readByValue`. -/
def castToArray (e : Expr) : Script Rep :=
  Script.mapError (.inConversion e.staticRep .array) do
    let source ← S.evaluate e.readByValue
    let inner ← S.dereference source
    let viaUnion : Script Rep := do
      let _ ← S.reshape inner e.hint.withoutRef .value
      S.callByAddress .value .valueToArray
    match inner with
    | .array => return .array
    | .object c =>
      if S.classes.hasFlags c .convertible then S.call .convertibleToArray else viaUnion
    | _ => viaUnion

end Scope

end Recast
