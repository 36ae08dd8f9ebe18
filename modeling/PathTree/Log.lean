/-!
# Log entries

What is told while working: a level, a message and named texts.
-/

namespace PathTree

/-- How important an entry is. -/
inductive LogLevel where
  | debug | info | warn | error | fatal
  deriving DecidableEq, Repr

/-- The name of a level. -/
def LogLevel.name : LogLevel → String
  | .debug => "debug"
  | .info => "info"
  | .warn => "warn"
  | .error => "error"
  | .fatal => "fatal"

/-- A log entry. -/
structure LogEntry where
  level : LogLevel
  message : String
  fields : List (String × String)

end PathTree
