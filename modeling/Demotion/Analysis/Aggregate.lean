import Demotion.Analysis.Result
import Demotion.Artifacts
import Demotion.FloatMap.Basic
import Demotion.Tool

/-!
# From artifacts to a result

The artifacts are read, compared with the source and summed up. No artifact can stop this: what
cannot be read, compared or summed up leaves its part of the result absent and becomes a diagnostic.
The steps can be made to fail (`Faults`), which shows that they fail independently.
-/

namespace Demotion.Analysis

/-- Messages with which the steps are made to fail. -/
structure Faults where
  diff : Option String
  report : Option String
  floatMap : Option String
  summary : Option String
  deriving DecidableEq, Repr

/-- No step is made to fail. -/
def Faults.none : Faults := ⟨.none, .none, .none, .none⟩

/-- The records of a float map, and in words what could not be used of it. -/
structure FloatMapReading where
  records : List FloatMap.Record
  error : Option String
  deriving DecidableEq, Repr

/-- The logger of analyses. -/
def logger : String := Log.pipelineLogger "orchestrator"

/-- What is logged of a step that failed. -/
def failureLog (what reason : String) : List Log.Entry :=
  [⟨.error, logger, s!"❌ {what}: {reason}"⟩]

/-! ## Steps -/

/-- A step that may not have been taken and may have failed, with the reason. -/
abbrev Step (α : Type) := Option (Except String α)

namespace Step

/-- What a step gives, if it was taken and did not fail. -/
def outcome? {α : Type} : Step α → Option α
  | some (.ok v) => some v
  | _ => none

/-- The diagnostic of a step that failed. -/
def diagnostic {α : Type} (what : String) : Step α → List String
  | some (.error reason) => [what ++ ": " ++ reason]
  | _ => []

/-- What is logged of a step: its own log, or that it failed. -/
def log {α : Type} (what : String) (own : α → List Log.Entry) : Step α → List Log.Entry
  | some (.ok v) => own v
  | some (.error reason) => failureLog what reason
  | none => []

/-- Nothing is logged of a step that did not fail. -/
def failureOnly {α : Type} (what : String) (step : Step α) : List Log.Entry :=
  step.log what fun _ => []

end Step

/-- A result, unless its step is made to fail. -/
def unlessMade {α : Type} (fault : Option String) (result : Unit → Except String α) :
    Except String α :=
  match fault with
  | some reason => .error reason
  | none => result ()

/-! ## Reading the artifacts -/

/-- Reads the report, if there is one. -/
def readReport (faults : Faults) (text : Option String) : Step MemoryReport :=
  text.map fun text => unlessMade faults.report fun _ => .ok (MemoryReport.parse text)

/-- What is logged when a report is read. -/
def reportLog (step : Step MemoryReport) : List Log.Entry :=
  step.log "Memory report parsing failed" MemoryReport.log

/-- Reads the float map, if there is one. -/
def readFloatMap (host : Host) (faults : Faults) (raw : Option String) : Step FloatMap.Parsed :=
  raw.map fun raw => unlessMade faults.floatMap fun _ =>
    (FloatMap.parse host.nesting raw).mapError Json.Container.message

/-- What is logged when a float map is read. -/
def floatMapLog (step : Step FloatMap.Parsed) : List Log.Entry :=
  step.log "Float map parsing failed" FloatMap.Parsed.log

/-- What a step that read a float map gives: without records if it failed. -/
def FloatMapReading.ofStep? (step : Step FloatMap.Parsed) : Option FloatMapReading :=
  step.map fun result =>
    match result with
    | .ok parsed => ⟨parsed.records, parsed.problem.map (·.message)⟩
    | .error reason => ⟨[], some ("Float map parsing failed: " ++ reason)⟩

/-! ## Comparing and summing up -/

/-- The counts of records, lines and bytes. -/
def summarize (records : List FloatMap.Record) (report : Option MemoryReport)
    (differences : List LineDiff.Entry) : Except String Summary :=
  let (safe, notSafe) := FloatMap.splitSafe records
  let summary (memory : Option MemoryReport.Savings) : Summary := {
    safeCount := safe.length
    unsafeCount := notSafe.length
    demotionLines := LineDiff.count .demotion differences
    otherLines := LineDiff.count .other differences
    memory }
  match report with
  | none => .ok (summary none)
  | some report =>
    match report.savings with
    | .ok savings => .ok (summary (some savings))
    | .error e => .error e.message

/-- The parts from which a result is made: the report on the run, the artifacts, and what was read
from them. -/
structure Parts where
  invocation : Invocation
  artifacts : Artifacts
  report : Option MemoryReport
  floatMap : Option FloatMapReading
  source : String
  name : Content

namespace Parts

/-- The records of the float map, none of them if its text could not be read. -/
def records (p : Parts) : Option (List FloatMap.Record) :=
  match p.floatMap with
  | some reading => some reading.records
  | none => p.artifacts.floatMap.map fun _ => []

/-- The comparison of the source with the demoted code, if there is any. -/
def comparison (p : Parts) (faults : Faults) : Step (List LineDiff.Entry) :=
  p.artifacts.demotedCode.map fun demoted =>
    unlessMade faults.diff fun _ => .ok (LineDiff.compute p.source demoted)

/-- The summary with given differences, if there is anything to sum up. -/
def summary (p : Parts) (faults : Faults) (differences : Option (List LineDiff.Entry)) :
    Step Summary :=
  if p.records.isSome || p.report.isSome || differences.isSome then
    some (unlessMade faults.summary fun _ =>
      summarize (p.records.getD []) p.report (differences.getD []))
  else none

/-- The problems met while reading the artifacts. -/
def readingProblems (p : Parts) : List String :=
  let report :=
    if p.artifacts.memoryReport.isSome && p.report.isNone then
      ["Memory report could not be parsed"]
    else []
  let floatMap := ((p.floatMap.bind (·.error)).filter (· ≠ "")).toList
  p.artifacts.readErrors ++ report ++ floatMap

/-- The result that the parts make with a comparison and a summary. -/
def resultWith (p : Parts) (comparison : Step (List LineDiff.Entry)) (summary : Step Summary) :
    Result where
  success := p.invocation.success
  sourceCode := p.source
  submittedName := p.name
  stdout := p.invocation.stdout
  stderr := p.invocation.stderr
  demotedCode := p.artifacts.demotedCode
  memoryAnalysis := p.artifacts.memoryReport
  jsonAnalysis := p.records
  memoryReport := p.report
  differences := comparison.outcome?
  summary := summary.outcome?
  error := p.invocation.failureReason
  diagnostics := p.readingProblems ++ comparison.diagnostic "Source comparison failed" ++
    summary.diagnostic "Summary failed"

/-- The result that the parts make, and what is logged when it is made. -/
def aggregate (p : Parts) (faults : Faults) : Result × List Log.Entry :=
  let comparison := p.comparison faults
  let summary := p.summary faults comparison.outcome?
  (p.resultWith comparison summary,
    comparison.failureOnly "Could not compute source differences" ++
      summary.failureOnly "Could not summarize analysis")

end Parts

end Demotion.Analysis
