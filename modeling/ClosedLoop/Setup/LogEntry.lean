/-!
# Log entries

* `LogEntry` — a message with its level, and its text.
-/

namespace ClosedLoop

/-- How important a message is. -/
inductive LogLevel where
  | debug
  | info
  deriving DecidableEq, Repr

/-- A message with its level. -/
structure LogEntry where
  level : LogLevel
  message : String
  deriving DecidableEq, Repr

/-- The level and the message. -/
def LogEntry.text (e : LogEntry) : String :=
  match e.level with
  | .debug => s!"DEBUG {e.message}"
  | .info => s!"INFO {e.message}"

end ClosedLoop
