import Demotion.Assoc
import Demotion.Log.Basic
import Demotion.Text.Split
import Demotion.Text.UpperCase

/-!
# Setting up the log

A setup gives the root and the loggers of the service one level, the loggers of other components
levels of their own, and says where entries go: to the console and, if a file is named, to that
file. The last setup counts. A logger without a level has that of the nearest logger above it in
the path of its name, and at last that of the root.
-/

namespace Demotion.Log

/-! ## Names of levels -/

/-- What takes the place of a level and is none: the format of a line, or all styles of formats. -/
inductive LevelError where
  | format
  | styles
  deriving DecidableEq, Repr

/-- The error in words. -/
def LevelError.message : LevelError → String
  | .format => "Unknown level: \x27%(levelname)s:%(name)s:%(message)s\x27"
  | .styles =>
    "Level not an integer or a valid string: \x7b\x27%\x27: " ++
    "(<class \x27logging.PercentStyle\x27>, \x27%(levelname)s:%(name)s:%(message)s\x27), " ++
    "\x27\x7b\x27: (<class \x27logging.StrFormatStyle\x27>, " ++
    "\x27\x7blevelname\x7d:\x7bname\x7d:\x7bmessage\x7d\x27), " ++
    "\x27$\x27: (<class \x27logging.StringTemplateStyle\x27>, " ++
    "\x27$\x7blevelname\x7d:$\x7bname\x7d:$\x7bmessage\x7d\x27)\x7d"

/-- The level that a word names, in any case. A word that names nothing stands for the level of
information, and one that names a format or the styles is an error. -/
def levelNamed (word : String) : Except LevelError Level :=
  match Text.upper word with
  | "NOTSET" => .ok 0
  | "DEBUG" => .ok .debug
  | "INFO" => .ok .info
  | "WARN" => .ok .warning
  | "WARNING" => .ok .warning
  | "ERROR" => .ok .error
  | "CRITICAL" => .ok .critical
  | "FATAL" => .ok .critical
  | "BASIC_FORMAT" => .error .format
  | "_STYLES" => .error .styles
  | _ => .ok .info

/-! ## The state of the log -/

/-- Where entries go. -/
inductive Handler where
  | console
  | file (name : String)
  deriving DecidableEq, Repr

/-- The levels of the loggers, of which 0 is none, and where entries go. -/
structure Setup where
  root : Level
  levels : List (String × Level)
  handlers : List Handler
  deriving DecidableEq, Repr

/-- The loggers of the service. -/
def serviceLoggers : List String :=
  [pipelineLogger "orchestrator", pipelineLogger "workspace_manager",
    pipelineLogger "tool_invoker", pipelineLogger "artifact_collector", "shared.float_analysis",
    "api"]

/-- The loggers of other components and their levels. -/
def externalLevels : List (String × Level) :=
  [("uvicorn", .info), ("uvicorn.access", .warning), ("asyncio", .warning),
    ("multipart", .warning), ("httpx", .warning)]

namespace Setup

/-- Before any setup only warnings count, and nothing is written. -/
def initial : Setup := ⟨.warning, [], []⟩

/-- The level that a logger was given. -/
def ownLevel (s : Setup) (name : String) : Level :=
  (Assoc.find? name s.levels).getD 0

/-- Where entries go if a file is named. An empty name is none. -/
def handlersFor : Option String → List Handler
  | some name => if name = "" then [.console] else [.console, .file name]
  | none => [.console]

/-- Sets up the log anew. -/
def configure (s : Setup) (level : Level) (file : Option String) : Setup where
  root := level
  levels := externalLevels.foldl (fun levels e => Assoc.set e.1 e.2 levels)
    (serviceLoggers.foldl (fun levels name => Assoc.set name level levels) s.levels)
  handlers := handlersFor file

/-! ## Which entries count -/

/-- The paths above a path, the nearest first. -/
def above (path : List Char) : List (List Char) :=
  if Text.beforeLast '.' path = [] then []
  else Text.beforeLast '.' path :: above (Text.beforeLast '.' path).dropLast
termination_by path.length
decreasing_by
  have h := Text.beforeLast_length '.' path
  have h' := List.length_pos_iff.mpr ‹¬Text.beforeLast '.' path = []›
  simp only [List.length_dropLast]
  omega

/-- The level that counts for a logger. -/
def effectiveLevel (s : Setup) (name : String) : Level :=
  let names := name :: (above name.toList).map String.ofList
  ((names.map s.ownLevel).find? (· ≠ 0)).getD s.root

/-- Whether an entry counts. -/
def isEnabled (s : Setup) (e : Entry) : Bool :=
  0 < e.level && s.effectiveLevel e.logger ≤ e.level

/-- The entries that a handler gets. -/
def delivered (s : Setup) (h : Handler) (log : List Entry) : List Entry :=
  if s.handlers.contains h then log.filter s.isEnabled else []

end Setup

end Demotion.Log
