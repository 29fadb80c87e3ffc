import PipelineGraph.Text.Basic

/-!
# Log records

What is worth a note beside a result is returned with it as log records, in the order in which
the notes were made.
-/

namespace PipelineGraph

/-- The levels of log records. -/
inductive LogLevel where
  | debug
  | info
  | warning
  | error
deriving DecidableEq

/-- The name of a level. -/
def LogLevel.name : LogLevel → Text
  | debug => "DEBUG"
  | info => "INFO"
  | warning => "WARNING"
  | error => "ERROR"

/-- A message at a level. -/
structure LogRecord where
  level : LogLevel
  message : Text
deriving DecidableEq

namespace LogRecord

/-- The level and the message of a record. -/
def line (r : LogRecord) : Text :=
  r.level.name ++ " " ++ r.message

end LogRecord

end PipelineGraph
