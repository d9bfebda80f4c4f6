/-!
# Log entries

An entry has a level, the name of its logger and a message. The name of a logger is a path of words
with dots between them.
-/

namespace Demotion.Log

/-- How severe an entry is; the larger, the more. -/
abbrev Level := Nat

namespace Level

def debug : Level := 10
def info : Level := 20
def warning : Level := 30
def error : Level := 40
def critical : Level := 50

/-- The name of a level. -/
def name (level : Level) : String :=
  match level with
  | 0 => "NOTSET"
  | 10 => "DEBUG"
  | 20 => "INFO"
  | 30 => "WARNING"
  | 40 => "ERROR"
  | 50 => "CRITICAL"
  | n => s!"Level {n}"

end Level

/-- An entry of the log. -/
structure Entry where
  level : Level
  logger : String
  message : String
  deriving DecidableEq, Repr

/-- The logger of a stage of the pipeline. -/
def pipelineLogger (component : String) : String :=
  s!"pipeline.{component}"

end Demotion.Log
