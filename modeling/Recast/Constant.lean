import Recast.Binary
import Recast.Hint

/-!
# Constants

A constant is a value known before the program runs.

* `Constant.natural` is the representation it is loaded in when no other is asked for;
* `Constant.isTruthy` is its truth value.
-/

namespace Recast

/-- A value known before the program runs. -/
inductive Constant where
  | null
  | bool (b : Bool)
  | long (i : Int64)
  | double (x : Binary64)
  | text (s : String)
  deriving DecidableEq

namespace Constant

/-- The representation a constant has when it is loaded without a target. -/
def natural : Constant → Rep
  | null => .value
  | bool _ => .bool
  | long _ => .int64
  | double _ => .float64
  | text _ => .text

/-- Null, false, zero of either sign, the empty text and the text `0` are false, and nothing
else is. -/
def isTruthy : Constant → Bool
  | null => false
  | bool b => b
  | long i => i != 0
  | double x => !x.isZero
  | text s => s != "" && s != "0"

/-- The constant is null. -/
def isNull : Constant → Bool
  | null => true
  | _ => false

/-- The families that the literal of a constant belongs to. -/
def hint : Constant → Hint
  | null => .null
  | c => c.natural.hint

end Constant

end Recast
