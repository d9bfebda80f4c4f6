import Demotion.Analysis.Result
import Demotion.Text.Blank
import Demotion.Text.Pad

/-!
# The summary of a result

A result is printed as a few lines for a reader: the verdict, the counts, the lines that differ and
the problems.
-/

namespace Demotion.CommandLine

/-- A line without the white space around it. -/
def trimmed (line : String) : String :=
  String.ofList (Text.trim line.toList)

/-- The line of a byte count. -/
def savingsLine (s : MemoryReport.Savings) : String :=
  let percent := s.percent.exact
  s!"   Memory: {s.before} -> {s.after} bytes ({percent}% reduction)"

/-- The lines of the counts. -/
def countLines (s : Analysis.Summary) : List String :=
  [s!"   Safe floats:      {s.safeCount}", s!"   Unsafe floats:    {s.unsafeCount}",
    s!"   Demoted lines:    {s.demotionLines}", s!"   Other changes:    {s.otherLines}"] ++
  (s.memory.map savingsLine).toList

/-- The line of a difference. -/
def differenceLine (e : LineDiff.Entry) : String :=
  let kind := Text.padEnd 8 e.change.name
  let number := Text.padStart 4 (toString e.line)
  let before := trimmed e.before
  let after := trimmed e.after
  s!"   [{kind}] {number}: {before}  ->  {after}"

/-- The lines of a result. -/
def summaryLines (r : Analysis.Result) : List Content :=
  let rule := Content.ofText (String.ofList (List.replicate 70 '='))
  let verdict := if r.success then "✅ success" else "❌ failed"
  let error := ((r.error.filter (· ≠ "")).map fun e => s!"Error: {e}").toList
  let details := error ++ (r.summary.map countLines).getD [] ++
    (r.differences.getD []).map differenceLine ++ r.diagnostics.map fun d => s!"⚠️  {d}"
  [rule, Content.ofText "📄 " ++ r.submittedName ++ Content.ofText s!": {verdict}", rule] ++
    details.map Content.ofText

end Demotion.CommandLine
