import Demotion.Analysis.Run
import Demotion.CommandLine.Help
import Demotion.CommandLine.Summary
import Demotion.EnvironmentFile
import Demotion.Json.Printer
import Demotion.Log.Delivery

/-!
# The command

The command reads the environment, its arguments and the source, runs an analysis and prints the
result. Its exit status is 0 for success, 1 for a failed analysis and 2 for anything it could not
begin with.
-/

namespace Demotion.CommandLine

/-- Something printed: an entry of the log, or a text. -/
inductive Output where
  | log (entry : Log.Entry)
  | text (content : Content)
  deriving DecidableEq, Repr

/-- The text of an output, with the time of the log. -/
def Output.render (time : String) : Output → Content
  | .log entry => Content.ofText (entry.line time)
  | .text content => content

/-- The end of a command: its exit status, what it printed, what it complained about, and the
files. -/
structure Finished where
  exit : Nat
  output : List Output
  complaint : String
  tree : FileTree

/-- Why an environment file cannot be used. -/
inductive EnvironmentError where
  | file (error : FileError)
  | malformed (error : Text.Utf8.Malformed)
  | unsettable (error : EnvironmentFile.VariableError)
  deriving DecidableEq, Repr

/-- The reason in words. -/
def EnvironmentError.message : EnvironmentError → String
  | .file e => e.message
  | .malformed e => e.message
  | .unsettable e => e.message

/-- Why a command breaks off. -/
inductive Crash where
  | environment (error : EnvironmentError)
  | number (error : NumberError)
  | log (error : Log.SetupError)
  | failure (failure : Failure)
  | unprintable (error : Unencodable)
  deriving DecidableEq, Repr

/-- The reason in words. -/
def Crash.message : Crash → String
  | .environment e => e.message
  | .number e => e.message
  | .log e => e.message
  | .failure f => f.message
  | .unprintable e => e.message

/-- The name of the environment file. -/
def environmentFileName : String := ".env"

/-- The path of the environment file at a place. -/
def environmentPath (place : Place) : FilePath :=
  ⟨.top, place.map FileName.content ++ [Content.ofText environmentFileName]⟩

/-- The content of the environment file nearest to a place, there or above, or why it cannot be
opened. -/
def environmentFile? (top : Node) (place : Place) : Option (Except FileError (List UInt8)) :=
  match top.foundAt? (place ++ [.text environmentFileName]) with
  | some (.file content) => some (.ok content)
  | some (.closed (.file _) fault) =>
    some (.error (FileTree.refused fault (environmentPath place)))
  | _ => if place = [] then none else environmentFile? top place.dropLast
termination_by place.length
decreasing_by
  have := List.length_pos_iff.mpr ‹¬place = []›
  simp only [List.length_dropLast]
  omega

/-- The environment with what the environment file adds. -/
def environment (env : Environment) (t : FileTree) : Except EnvironmentError Environment :=
  if EnvironmentFile.isSwitchedOff env then .ok env
  else
    match environmentFile? t.top t.working with
    | none => .ok env
    | some (.error e) => .error (.file e)
    | some (.ok content) =>
      match Text.Utf8.decode content with
      | .ok s => (EnvironmentFile.load (String.ofList s) env).mapError .unsettable
      | .error e => .error (.malformed e)

/-- The settings with what the arguments change. -/
def Arguments.apply (a : Arguments) (s : Settings) : Settings :=
  { s with
    toolTimeout := a.timeout.getD s.toolTimeout
    retainWorkspaces := a.keepWorkspace || s.retainWorkspaces }

/-- The end of a command that prints one line. -/
def oneLine (exit : Nat) (line : String) (t : FileTree) : Finished :=
  ⟨exit, [.text (Content.ofText (line ++ "\n"))], "", t⟩

/-- The texts that are printed of a result, as the arguments ask for it. -/
def resultTexts (a : Arguments) (r : Analysis.Result) : Except Crash (List Content) :=
  if a.json then
    if r.toJson.isWritable then .ok [r.toJson.render] else .error (.number .longInteger)
  else .ok (summaryLines r)

/-- The text of a result on the console of a host, each of its texts with a line feed. -/
def resultText (host : Host) (a : Arguments) (r : Analysis.Result) : Except Crash Content :=
  match resultTexts a r with
  | .error crash => .error crash
  | .ok texts =>
    match texts.findSome? host.unprintable? with
    | some e => .error (.unprintable e)
    | none => .ok (texts.flatMap (· ++ [.char '\n']))

/-- Runs an analysis on a source and prints the result. -/
def analyze (a : Arguments) (s : Settings) (setup : Log.Setup) (time : String)
    (c : Analysis.Circumstances) (name : Content) (source : List UInt8) (t : FileTree) :
    Except Crash Finished :=
  let finished := (c.job name source).runAlone s t
  let tree := Log.deliver setup time finished.log finished.tree
  let logged := (setup.delivered .console finished.log).map .log
  match finished.result with
  | .ok r =>
    match resultText c.host a r with
    | .ok text => .ok ⟨if r.success then 0 else 1, logged ++ [.text text], "", tree⟩
    | .error crash => .error crash
  | .error f =>
    let reason := f.message
    if f.isExpected then
      .ok ⟨1, logged ++ [.text (Content.ofText s!"❌ Analysis failed: {reason}\n")], "", tree⟩
    else .error (.failure f)

/-- Reads the source and runs an analysis on it, if the settings are valid and it is admitted. -/
def execute (a : Arguments) (s : Settings) (setup : Log.Setup) (time : String)
    (c : Analysis.Circumstances) (t : FileTree) : Except Crash Finished :=
  match s.validate with
  | .error e =>
    let reason := e.message
    .ok (oneLine 2 s!"❌ Invalid configuration: {reason}" t)
  | .ok () =>
    let path := FilePath.ofText a.source
    match Failure.ofPath? path with
    | some failure => .error (.failure failure)
    | none =>
      match t.readFile path with
      | .error e =>
        let shown := path.text
        let reason := e.message
        .ok (oneLine 2 s!"❌ Could not read {shown}: {reason}" t)
      | .ok source =>
        match Submission.check s (some path.name) source.length with
        | .error e =>
          let reason := e.message
          .ok (oneLine 2 s!"❌ {reason}" t)
        | .ok () => analyze a s setup time c path.name source t

/-- Runs the command. -/
def run (arguments : List String) (env : Environment) (time : String)
    (c : Analysis.Circumstances) (t : FileTree) : Except Crash Finished :=
  match environment env t with
  | .error e => .error (.environment e)
  | .ok env =>
    match parse arguments with
    | .error .help => .ok ⟨0, [.text (Content.ofText (help (textWidth env)))], "", t⟩
    | .error (.usage e) => .ok ⟨2, [], complaint (textWidth env) e, t⟩
    | .ok a =>
      match Settings.ofEnvironment env with
      | .error e => .error (.number e)
      | .ok s =>
        let s := a.apply s
        match Log.setUp .initial s.logLevel s.logFile t with
        | .error e => .error (.log e)
        | .ok (setup, tree) => execute a s setup time c tree

end Demotion.CommandLine
