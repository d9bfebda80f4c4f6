import Demotion.FloatMap.Record
import Demotion.LineDiff
import Demotion.MemoryReport.Savings

/-!
# Results of an analysis

A result holds the submitted source, what the tool wrote, the artifacts as texts and as what was
read from them, a summary, and the problems met on the way. `Result.toJson` is its public form, in
which everything absent is left out.
-/

namespace Demotion.Analysis

/-- The counts of an analysis. -/
structure Summary where
  safeCount : Nat
  unsafeCount : Nat
  demotionLines : Nat
  otherLines : Nat
  memory : Option MemoryReport.Savings
  deriving DecidableEq, Repr

/-- The result of an analysis. -/
structure Result where
  success : Bool
  sourceCode : String
  submittedName : Content
  stdout : String
  stderr : String
  demotedCode : Option String
  memoryAnalysis : Option String
  jsonAnalysis : Option (List FloatMap.Record)
  memoryReport : Option MemoryReport
  differences : Option (List LineDiff.Entry)
  summary : Option Summary
  error : Option String
  diagnostics : List String

/-- The member of a value that may be absent. -/
def member {α : Type} (name : String) (toJson : α → Json) : Option α → List (String × Json)
  | some v => [(name, toJson v)]
  | none => []

/-- The JSON number of a number in double precision. -/
def realToJson (x : Binary64) : Json :=
  match x with
  | .finite _ _ _ => .number x.exact
  | .infinite false => .number "Infinity"
  | .infinite true => .number "-Infinity"
  | .nan => .number "NaN"

/-- The JSON object of byte figures. -/
def savingsToJson (s : MemoryReport.Savings) : Json :=
  .record [("originalBytes", .int s.before), ("afterBytes", .int s.after),
    ("savedBytes", .int s.saved), ("reductionPercent", realToJson s.percent)]

/-- The JSON object of a summary. -/
def Summary.toJson (s : Summary) : Json :=
  .record ([("safeCount", .int s.safeCount), ("unsafeCount", .int s.unsafeCount),
    ("demotionLines", .int s.demotionLines), ("otherLines", .int s.otherLines)] ++
    member "memory" savingsToJson s.memory)

/-- The JSON object of a line that differs. -/
def entryToJson (e : LineDiff.Entry) : Json :=
  .record [("lineNumber", .int e.line), ("original", .text e.before),
    ("demoted", .text e.after), ("type", .text e.change.name)]

namespace Result

/-- The JSON object of what was found. -/
def analysisToJson (r : Result) : Json :=
  .record (member "demotedCode" .text r.demotedCode ++
    member "memoryAnalysis" .text r.memoryAnalysis ++
    member "jsonAnalysis" (fun rs => .array (rs.map (·.toJson))) r.jsonAnalysis ++
    member "memoryReport" (·.toJson) r.memoryReport ++
    member "differences" (fun es => .array (es.map entryToJson)) r.differences ++
    member "summary" Summary.toJson r.summary)

/-- The JSON object of a result. -/
def toJson (r : Result) : Json :=
  .record ([("success", .bool r.success), ("originalCode", .text r.sourceCode),
    ("originalFilename", .string r.submittedName),
    ("pluginOutput", .record [("stdout", .text r.stdout), ("stderr", .text r.stderr)]),
    ("analysis", r.analysisToJson)] ++ member "error" .text r.error ++
    [("diagnostics", .texts r.diagnostics)])

end Result

end Demotion.Analysis
