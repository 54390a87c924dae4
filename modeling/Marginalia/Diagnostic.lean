/-!
# Diagnostics

What a scan has to say about its input, in the order in which it was noticed. A diagnostic carries
the place it speaks of, so logs of several files can be put one behind the other.
-/

namespace Marginalia

/-- How serious a diagnostic is. -/
inductive Severity where
  | warning
  | notice
deriving DecidableEq, Repr

/-- The name of a severity. -/
def Severity.name : Severity → String
  | .warning => "warning"
  | .notice => "notice"

/-- The level at which a severity is logged. -/
def Severity.level : Severity → String
  | .warning => "WARNING"
  | .notice => "INFO"

/-- A remark about a place. -/
structure Diagnostic where
  severity : Severity
  message : String
  location : String
deriving DecidableEq, Repr

/-- A message with its place. -/
def located (message location : String) : String := message ++ " in " ++ location

/-- A message with its place, if it has one that is not empty. -/
def contextText (message : String) : Option String → String
  | some place => if place = "" then message else located message place
  | none => message

/-- The text of a diagnostic. -/
def Diagnostic.text (d : Diagnostic) : String := located d.message d.location

/-- Whether a diagnostic is a warning. -/
def Diagnostic.isWarning (d : Diagnostic) : Bool := d.severity = .warning

/-- A log: diagnostics in the order in which they were recorded. -/
abbrev Log := List Diagnostic

/-- A log of one warning. -/
def warning (message location : String) : Log := [⟨.warning, message, location⟩]

/-- A log of one notice. -/
def notice (message location : String) : Log := [⟨.notice, message, location⟩]

end Marginalia
