import Recast.Convert.Error

/-!
# Diagnostics

What is reported to the user of a compiler: messages with a place in the source, and failures,
which are either a defect of the compiler or errors of the program.

* `Failure.ofConvertError` reports a conversion error at a place in the source.
-/

namespace Recast

/-- A range of characters of the source. -/
structure Span where
  /-- The first character. -/
  start : Nat
  /-- The character after the last one. -/
  stop : Nat
  deriving DecidableEq

/-- The start of the source, for what has no better place. -/
def Span.origin : Span := ⟨0, 0⟩

/-- How bad a diagnostic is. -/
inductive Severity where
  | error
  | warning
  | info
  deriving DecidableEq

/-- How a severity is written. -/
def Severity.toString : Severity → String
  | error => "error"
  | warning => "warning"
  | info => "info"

instance : ToString Severity := ⟨Severity.toString⟩

/-- A place that gives context to a diagnostic. -/
structure Related where
  /-- The place in the source. -/
  span : Span
  /-- What is to be seen there. -/
  message : String
  deriving DecidableEq

/-- A message about a place in the source. -/
structure Diagnostic where
  /-- How bad it is. -/
  severity : Severity
  /-- The message. -/
  message : String
  /-- The place in the source. -/
  span : Span
  /-- Places that give context. -/
  related : List Related
  /-- Suggestions. -/
  help : List String
  /-- The code that documentation lists the message under. -/
  code : Option String
  deriving DecidableEq

/-- Why a compilation was not completed. -/
inductive Failure where
  /-- A defect of the compiler. -/
  | internal (d : Diagnostic)
  /-- Errors of the program. -/
  | compilation (ds : List Diagnostic)
  deriving DecidableEq

/-- Report a conversion error at a place in the source. -/
def ConvertError.toDiagnostic (e : ConvertError) (span : Span) : Diagnostic :=
  ⟨.error, e.message, span, [], e.help, some e.code⟩

namespace Failure

/-- The failure that a conversion error leads to. -/
def ofConvertError (e : ConvertError) (span : Span) : Failure :=
  if e.isInternal then internal (e.toDiagnostic span) else compilation [e.toDiagnostic span]

/-- The diagnostics of a failure. -/
def diagnostics : Failure → List Diagnostic
  | internal d => [d]
  | compilation ds => ds

/-- The failure is a defect of the compiler. -/
def isInternal : Failure → Bool
  | internal _ => true
  | compilation _ => false

/-- The text of a failure in one line. -/
def message : Failure → String
  | internal d => "Internal compiler error: " ++ d.message
  | compilation ds =>
    "Compilation failed with " ++ (ds.countP (·.severity == .error)).repr ++ " error(s)"

theorem isInternal_ofConvertError (e : ConvertError) (span : Span) :
    (ofConvertError e span).isInternal = e.isInternal := by
  unfold ofConvertError
  cases h : e.isInternal <;> simp [isInternal]

end Failure

end Recast
