import Recast.Catalog.Op
import Recast.Rep

/-!
# Conversion errors

Why a conversion cannot be carried out. All causes but one are defects of the compiler that
asked; only a value that can never be called is a mistake of the program.

* `ConvertError.inConversion` names the requested pair in place of a missing operation alone.
-/

namespace Recast

/-- Why a conversion cannot be carried out. -/
inductive ConvertError where
  /-- The conversion needs an operation that the catalog does not bind. -/
  | notImplemented (source target : Rep) (missing : Op)
  /-- No value of the representation can be called. -/
  | notCallable (source : Rep)
  /-- An operation is not bound; the conversion that needed it is not named yet. -/
  | missingOp (op : Op)
  /-- There is no room for another local. -/
  | tooManyLocals
  /-- There is no room for another interned text. -/
  | tooManyTexts
  /-- A place without an address was asked for one. -/
  | noAddress
  /-- The catalog lets an alias lead to an alias, and so on without end. -/
  | endlessAlias
  deriving DecidableEq

namespace ConvertError

/-- The error is a defect of the compiler, not of the program. -/
def isInternal : ConvertError → Bool
  | notCallable _ => false
  | _ => true

/-- Attribute a missing operation to the conversion that needed it. -/
def inConversion (source target : Rep) : ConvertError → ConvertError
  | missingOp op => notImplemented source target op
  | e => e

/-- The code that documentation lists the error under. -/
def code : ConvertError → String
  | notCallable _ => "C001"
  | notImplemented .. | missingOp _ | endlessAlias => "I001"
  | tooManyLocals | tooManyTexts => "I002"
  | noAddress => "I003"

/-- The text of the error. -/
def message : ConvertError → String
  | notImplemented source target missing =>
    "conversion from " ++ source.toString ++ " to " ++ target.toString ++
      " is not implemented (missing " ++ missing.name ++ ")"
  | notCallable source =>
    "a value of type " ++ source.toString ++ " cannot be used as a callable"
  | missingOp op => "runtime operation " ++ op.name ++ " is not bound"
  | tooManyLocals => "too many locals"
  | tooManyTexts => "too many interned strings"
  | noAddress => "storage location has no address"
  | endlessAlias => "an alias leads to an alias"

/-- Suggestions that go with the error. -/
def help : ConvertError → List String
  | notCallable _ => ["Only routine names and callable objects can be called"]
  | notImplemented _ _ missing => ["Bind " ++ missing.name ++ " in the runtime catalog"]
  | _ => []

end ConvertError

end Recast
