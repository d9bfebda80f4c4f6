import Demotion.Text.Utf8
import Demotion.Workspace

/-!
# Running the tool

The tool is a program outside the service. What a run of it does is given as a `ToolRun`: it may
change its workspace in any way, writes output, takes time, and exits or is stopped by the time
limit. `Tool.run` starts it in a workspace and keeps of the output what the limit allows; a run that
could not start or ended with a status other than 0 is still an `Invocation`. Output is read up to
one byte more than the limit, which shows whether there is more.
-/

namespace Demotion

/-- How a run of the tool ends. A negative status is the signal that ended it. -/
inductive Ending where
  | exited (status : Int)
  | timedOut
  deriving DecidableEq, Repr

/-- What a run of the tool does. -/
structure ToolRun where
  /-- What becomes of the directory that it runs in, given the name of the source file there. -/
  effect : FileName → Node → Option Node
  stdout : List UInt8
  stderr : List UInt8
  ending : Ending
  duration : Binary64

/-- The tool: no program that can be started, or one that makes a run. -/
inductive Tool where
  | absent
  | present (run : ToolRun)

/-- Output of the tool, as far as it was kept. -/
structure Captured where
  text : String
  truncated : Bool
  deriving DecidableEq, Repr

/-- Output up to a limit of bytes. A limit of -1 keeps nothing, and one of -2 all but two bytes. -/
def Captured.ofBytes (memory limit : Int) (bytes : List UInt8) : Except ReadSizeError Captured :=
  match ReadSize.check memory (limit + 1) with
  | .error e => .error e
  | .ok () =>
    if limit = -2 then
      .ok ⟨String.ofList (Text.Utf8.decodeLossy (bytes.take (bytes.length - 2))), true⟩
    else .ok ⟨String.ofList (Text.Utf8.decodeLossy (bytes.take limit.toNat)), limit < bytes.length⟩

/-- The report on a run of the tool. -/
structure Invocation where
  success : Bool
  stdout : String
  stderr : String
  failureReason : Option String
  exitStatus : Option Int
  command : List Content
  duration : Binary64
  stdoutTruncated : Bool
  stderrTruncated : Bool
  deriving DecidableEq, Repr

namespace Tool

/-- The command that runs the tool on the source of a workspace. -/
def command (s : Settings) (w : Workspace) : List Content :=
  [s.clangPath, ("-fplugin=" ++ s.pluginPath : String), w.sourceName, "-Xclang",
    ("-plugin-arg-" ++ s.pluginName : String), "-Xclang", s.analysisFlag, "-c"]

/-- The time that the tool takes. -/
def duration : Tool → Binary64
  | .absent => .finite false 0 0
  | .present run => run.duration

/-- Why a program that is named by a path cannot be started from a directory: it is not there, or it
is a directory or something else that is no program. A path with a slash at its end is that of a
directory. -/
def pathFault (top : Node) (place : Place) (program : String) : FileFault :=
  let p := FilePath.ofText program
  if FileTree.maxPath < program.utf8ByteSize then .nameTooLong
  else
    match FileTree.walk top (if p.start = .here then place else []) p.names with
    | .error fault => fault
    | .ok found =>
      match top.kindAt? found with
      | none => .missing
      | some kind => if !kind.isDirectory && program.endsWith "/" then .notDirectory else .denied

/-- Why a program cannot be started from a directory. One that is not named by a path is looked for
in the usual directories, which have themselves and the directories above them as entries. -/
def startFault (top : Node) (place : Place) (program : String) : FileFault :=
  if program.toList.contains '/' then pathFault top place program
  else if FileTree.maxName < program.utf8ByteSize then .nameTooLong
  else if ["", ".", ".."].contains program then .denied
  else .missing

/-- How starting the tool came out. -/
inductive Outcome where
  | notStarted (cause : FileError)
  | unusable (failure : Failure)
  | timedOut
  | unreadable (error : ReadSizeError)
  | finished (status : Int) (stdout stderr : Captured)
  deriving DecidableEq, Repr

/-- How a run came out. -/
def outcome (memory limit : Int) (run : ToolRun) : Outcome :=
  match run.ending with
  | .timedOut => .timedOut
  | .exited status =>
    match Captured.ofBytes memory limit run.stdout, Captured.ofBytes memory limit run.stderr with
    | .ok stdout, .ok stderr => .finished status stdout stderr
    | .error e, _ => .unreadable e
    | _, .error e => .unreadable e

/-- The tree after a run on a source file in the directory at a place. -/
def affect (run : ToolRun) (source : FileName) (place : Place) (t : FileTree) : FileTree :=
  let changed := (t.top.foundAt? place).bind (run.effect source)
  { t with top := t.top.change place changed }

/-- Starts the tool in a workspace, which must be a directory that can be entered. -/
def start (host : Host) (s : Settings) (tool : Tool) (w : Workspace) (t : FileTree) :
    FileTree × Outcome :=
  match t.locate w.path with
  | .error fault => (t, .notStarted ⟨fault, .directory w.path⟩)
  | .ok place =>
    match t.top.enter place with
    | .error fault => (t, .notStarted ⟨fault, .directory w.path⟩)
    | .ok () =>
      match tool with
      | .absent => (t, .notStarted ⟨startFault t.top place s.clangPath, .name s.clangPath⟩)
      | .present run => (affect run w.sourceFile place t, outcome host.memory s.outputLimit run)

/-- Runs the tool in a workspace. A command that the system does not take is not even tried where
there is no such program. -/
def run (host : Host) (s : Settings) (tool : Tool) (w : Workspace) (t : FileTree) :
    FileTree × Outcome :=
  match tool with
  | .absent =>
    match (command s w).findSome? Failure.ofContent? with
    | some failure => (t, .unusable failure)
    | none => start host s .absent w t
  | .present run => start host s (.present run) w t

/-- Why a status other than 0 is a failure. -/
def failureReason (status : Int) : Option String :=
  if status < 0 then some s!"Tool terminated by signal {-status}"
  else if 0 < status then some s!"Tool exited with status {status}"
  else none

namespace Outcome

/-- The report on a run, or why there is none. -/
def report (s : Settings) (w : Workspace) (duration : Binary64) :
    Outcome → Except Failure Invocation
  | .timedOut => .error (.timeout s.toolTimeout)
  | .unusable failure => .error failure
  | .unreadable e => .error (.outputLimit e)
  | .notStarted cause => .ok {
      success := false
      stdout := ""
      stderr := ""
      failureReason := some ("Failed to start tool: " ++ cause.message)
      exitStatus := none
      command := command s w
      duration
      stdoutTruncated := false
      stderrTruncated := false }
  | .finished status stdout stderr => .ok {
      success := status = 0
      stdout := stdout.text
      stderr := stderr.text
      failureReason := Tool.failureReason status
      exitStatus := some status
      command := command s w
      duration
      stdoutTruncated := stdout.truncated
      stderrTruncated := stderr.truncated }

/-- The logger of the tool. -/
def logger : String := Log.pipelineLogger "tool_invoker"

/-- What is logged of how a run came out. -/
def log (s : Settings) (duration : Binary64) : Outcome → List Log.Entry
  | .timedOut =>
    let elapsed := duration.fixed 1
    let limit := s.toolTimeout.exact
    [⟨.error, logger, s!"⏰ Tool timed out after {elapsed}s (limit {limit}s); process killed"⟩]
  | .unusable _ => []
  | .unreadable _ => []
  | .notStarted cause =>
    let reason := cause.message
    [⟨.error, logger, s!"🚫 Could not start tool \x27{s.clangPath}\x27: {reason}"⟩]
  | .finished status stdout stderr =>
    let elapsed := duration.fixed 2
    let truncation : List Log.Entry :=
      if stdout.truncated || stderr.truncated then
        [⟨.warning, logger, s!"⚠️ Tool output exceeded {s.outputLimit} bytes and was truncated"⟩]
      else []
    let verdict : Log.Entry :=
      match Tool.failureReason status with
      | some reason => ⟨.warning, logger, s!"❌ {reason} after {elapsed}s"⟩
      | none => ⟨.info, logger, s!"✅ Tool completed in {elapsed}s"⟩
    truncation ++ [verdict]

end Outcome

/-- What is logged when the tool is started. -/
def startLog (s : Settings) (w : Workspace) : List Log.Entry :=
  let words := " ".intercalate ((command s w).map Content.shown)
  [⟨.info, Outcome.logger, s!"🔧 Running tool in workspace {w.id}"⟩,
    ⟨.debug, Outcome.logger, s!"⚙️  Command: {words}"⟩]

end Tool

end Demotion
