/-!
# Options

The options of a code generator. None of them changes what the generated code does, only what
it costs.
-/

namespace Recast

/-- What a code generator may do to save work at run time. -/
structure Options where
  /-- Load values known beforehand directly in the target representation. -/
  foldConstants : Bool
  /-- Use typed operations on the address of a place instead of a loaded copy. -/
  placeFastPaths : Bool
  /-- Emit nothing for expressions without effects whose value is discarded. -/
  elidePureDiscards : Bool
  deriving DecidableEq

/-- Changes to options; what is `none` keeps its value. -/
structure Options.Override where
  /-- The new value of `foldConstants`. -/
  foldConstants : Option Bool
  /-- The new value of `placeFastPaths`. -/
  placeFastPaths : Option Bool
  /-- The new value of `elidePureDiscards`. -/
  elidePureDiscards : Option Bool

namespace Options

/-- Everything that saves work is on. -/
def standard : Options := ⟨true, true, true⟩

/-- Only the general paths are used. -/
def unoptimized : Options := ⟨false, false, false⟩

/-- Apply the changes. -/
def override (o : Options) (c : Override) : Options where
  foldConstants := c.foldConstants.getD o.foldConstants
  placeFastPaths := c.placeFastPaths.getD o.placeFastPaths
  elidePureDiscards := c.elidePureDiscards.getD o.elidePureDiscards

end Options

end Recast
