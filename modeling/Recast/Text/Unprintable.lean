import Recast.Text.Combining
import Recast.Text.Unassigned

/-!
# Characters that cannot be shown

Characters that draw nothing of their own or change their neighbours: control, format,
private-use, combining and ignorable characters, separators other than the plain space, and code
points without a character.
-/

namespace Recast.CharClass

/-- The classes of characters that cannot be shown as they are. -/
def unprintableClasses : List CharClass :=
  [control, format, separator, privateUse, combining, ignorable, unassigned]

end Recast.CharClass

namespace Recast.Unprintable

/-- The character cannot be shown as it is. -/
def isUnprintable (c : Char) : Bool := CharClass.unprintableClasses.any (·.contains c)

/-- A letter is shown, and so is a voicing mark that has a cell of its own. -/
example : isUnprintable 'a' = false ∧ isUnprintable '\uff9e' = false := by decide +kernel

/-- A filler draws nothing, and a code point may have no character. -/
example : isUnprintable '\u3164' = true ∧ isUnprintable '\u0378' = true := by decide +kernel

end Recast.Unprintable
