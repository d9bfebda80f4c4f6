import Demotion.Analysis.Aggregate

/-!
# Running an analysis

An analysis acquires a workspace, runs the tool in it, collects the artifacts, makes a result of
them and releases the workspace whatever happened. A failure before the release is the one that is
reported; a failure of the release counts only if there is no other.
-/

namespace Demotion.Analysis

/-- What an analysis is about: a source under a name, a host, a tool, and the id of its workspace. -/
structure Job where
  source : List UInt8
  name : Content
  host : Host
  tool : Tool
  id : String
  faults : Faults

/-- What an analysis meets that nobody who asks for it decides: the host, the tool, the id of the next
workspace, and the steps that are made to fail. -/
structure Circumstances where
  host : Host
  tool : Tool
  id : String
  faults : Faults

/-- The analysis of a source. -/
def Circumstances.job (c : Circumstances) (name : Content) (source : List UInt8) : Job :=
  { source, name, host := c.host, tool := c.tool, id := c.id, faults := c.faults }

/-- The end of an analysis: the files, the result or a failure, and what was logged. -/
structure Finished where
  tree : FileTree
  result : Except Failure Result
  log : List Log.Entry

/-- The text of a source. -/
def sourceText (source : List UInt8) : String :=
  String.ofList (Text.Utf8.decodeLossy source)

namespace Job

/-- Makes a result of the artifacts of a run. The report is read before the float map. -/
def aggregate (job : Job) (artifacts : Artifacts) (invocation : Invocation) :
    Result × List Log.Entry :=
  let report := readReport job.faults artifacts.memoryReport
  let floatMap := readFloatMap job.host job.faults artifacts.floatMap
  let parts : Parts := {
    invocation
    artifacts
    report := report.outcome?
    floatMap := FloatMapReading.ofStep? floatMap
    source := sourceText job.source
    name := job.name }
  let (result, log) := parts.aggregate job.faults
  (result, reportLog report ++ floatMapLog floatMap ++ log)

/-- Collects the artifacts of a run and makes a result of them. -/
def gather (job : Job) (w : Workspace) (t : FileTree) (invocation : Invocation) :
    Except Failure Result × List Log.Entry :=
  let found := Artifacts.find w t
  match found.artifacts with
  | .error e => (.error (.file e), found.log w)
  | .ok artifacts =>
    let (result, log) := job.aggregate artifacts invocation
    (.ok result, found.log w ++ log)

/-- Runs the tool in a workspace and makes a result of what it leaves. -/
def work (job : Job) (s : Settings) (w : Workspace) (t : FileTree) : Finished :=
  let (tree, outcome) := job.tool.run job.host s w t
  let log := Tool.startLog s w ++ outcome.log s job.tool.duration
  match outcome.report s w job.tool.duration with
  | .error failure => ⟨tree, .error failure, log⟩
  | .ok invocation =>
    let (result, gathered) := job.gather w tree invocation
    ⟨tree, result, log ++ gathered⟩

/-- What is logged at the start of an analysis. -/
def startLog (job : Job) : List Log.Entry :=
  let rule := String.ofList (List.replicate 60 '=')
  let name := job.name.shown
  [⟨.info, logger, rule⟩, ⟨.info, logger, s!"🚀 Starting FP16 analysis for \x27{name}\x27"⟩,
    ⟨.info, logger, rule⟩]

/-- What is logged at the end of an analysis. -/
def endLog (job : Job) (r : Result) : List Log.Entry :=
  let elapsed := job.tool.duration.clocked.fixed 2
  let success := if r.success then "True" else "False"
  let count := r.diagnostics.length
  ⟨.info, logger, s!"✅ Analysis finished in {elapsed}s (success={success})"⟩ ::
    if count = 0 then [] else [⟨.info, logger, s!"   Diagnostics: {count}"⟩]

/-- Releases a workspace after work in it. -/
def finish (job : Job) (s : Settings) (w : Workspace) (worked : Finished) : Finished :=
  let (tree, release) := w.release s.retainWorkspaces worked.tree
  let log := worked.log ++ release.log w
  match worked.result, release.result w with
  | .ok r, .ok () => ⟨tree, .ok r, log ++ job.endLog r⟩
  | .ok _, .error e => ⟨tree, .error (.workspace e), log⟩
  | .error failure, .ok () => ⟨tree, .error failure, log⟩
  | .error failure, .error e =>
    let reason := e.message
    ⟨tree, .error failure, log ++ [⟨.error, logger,
      s!"❌ Workspace cleanup failed while handling another error: {reason}"⟩]⟩

/-- Runs an analysis in a workspace of its own. -/
def run (job : Job) (s : Settings) (ws : Workspaces) (t : FileTree) : Finished :=
  let (tree, acquired) := (ws.workspace job.id job.name).acquire job.source t
  let log := job.startLog ++ Workspace.acquireLog job.source acquired
  match acquired with
  | .error failure => ⟨tree, .error failure, log⟩
  | .ok w =>
    let finished := job.finish s w (job.work s w tree)
    { finished with log := log ++ finished.log }

/-- Makes the directory of all workspaces and runs an analysis. -/
def runAlone (job : Job) (s : Settings) (t : FileTree) : Finished :=
  let ws := Workspaces.ofSettings s
  let (tree, prepared) := ws.prepare t
  let log := ws.prepareLog prepared
  match prepared with
  | .error failure => ⟨tree, .error failure, log⟩
  | .ok ws =>
    let finished := job.run s ws tree
    { finished with log := log ++ finished.log }

end Job

end Demotion.Analysis
