/-!
# Log lines

What a run says while it goes on, as data.  Details are told only to a verbose run.
-/

set_option autoImplicit false

namespace DesignTokens

/-- How much a log line matters. -/
inductive LogLevel where
  | detail
  | info
  | warning
  | error
  deriving DecidableEq, Repr, Inhabited

/-- A line of the log. -/
structure LogLine where
  level : LogLevel
  message : String
  deriving DecidableEq, Repr, Inhabited

namespace LogLine

/-- A detail. -/
def detail (message : String) : LogLine := ⟨.detail, message⟩

/-- A line of information. -/
def info (message : String) : LogLine := ⟨.info, message⟩

/-- A warning. -/
def warning (message : String) : LogLine := ⟨.warning, message⟩

/-- A line about an error. -/
def error (message : String) : LogLine := ⟨.error, message⟩

end LogLine

/-- The lines that a run shows: without details unless it is verbose. -/
def shownLines (verbose : Bool) (lines : List LogLine) : List LogLine :=
  lines.filter fun line => verbose || line.level != .detail

end DesignTokens
