import Demotion.Analysis.Aggregate

/-!
# Parts that are given as objects

The parts of a result can be given as JSON objects instead of being made by a run of the tool. Each
is read from its fields; fields that a part does not have are passed over.
-/

namespace Demotion

/-- The members of an object. -/
abbrev Members := List (Content × Json)

/-- The field of a name. -/
def fieldOf (members : Members) (name : String) : Option Field :=
  (Json.lookup members name).map Field.valued

/-- The report on a run of the tool with the given fields. -/
def Invocation.ofMembers (members : Members) : Except FieldFaults Invocation :=
  let field := fieldOf members
  let success := required Field.asBool (field "success")
  let stdout := defaulted "" Field.onlyText (field "stdout")
  let stderr := defaulted "" Field.onlyText (field "stderr")
  let reason := optional Field.onlyText (field "failure_reason")
  let status := optional Field.asInteger (field "exit_status")
  let command := readTexts "command" (Json.lookup members "command")
  let duration := defaulted (Binary64.ofInt 0) Field.asReal (field "duration_seconds")
  let stdoutTruncated := defaulted false Field.asBool (field "stdout_truncated")
  let stderrTruncated := defaulted false Field.asBool (field "stderr_truncated")
  match success, stdout, stderr, reason, status, command, duration, stdoutTruncated,
      stderrTruncated with
  | .ok success, .ok stdout, .ok stderr, .ok failureReason, .ok exitStatus, .ok command,
      .ok duration, .ok stdoutTruncated, .ok stderrTruncated =>
    .ok { success, stdout, stderr, failureReason, exitStatus, command := command.map Content.ofText,
          duration, stdoutTruncated, stderrTruncated }
  | _, _, _, _, _, _, _, _, _ =>
    .error (faultOf "success" success ++ faultOf "stdout" stdout ++ faultOf "stderr" stderr ++
      faultOf "failure_reason" reason ++ faultOf "exit_status" status ++ faultsOf command ++
      faultOf "duration_seconds" duration ++ faultOf "stdout_truncated" stdoutTruncated ++
      faultOf "stderr_truncated" stderrTruncated)

/-- The artifacts with the given fields. -/
def Artifacts.ofMembers (members : Members) : Except FieldFaults Artifacts :=
  let field := fieldOf members
  let code := optional Field.onlyText (field "demoted_code")
  let report := optional Field.onlyText (field "memory_report_text")
  let map := optional Field.onlyText (field "float_map_raw")
  let errors := readTexts "read_errors" (Json.lookup members "read_errors")
  match code, report, map, errors with
  | .ok demotedCode, .ok memoryReport, .ok floatMap, .ok readErrors =>
    .ok { demotedCode, memoryReport, floatMap, readErrors }
  | _, _, _, _ =>
    .error (faultOf "demoted_code" code ++ faultOf "memory_report_text" report ++
      faultOf "float_map_raw" map ++ faultsOf errors)

namespace Analysis

/-- The record at a place of the array in a field. -/
def recordAt (name : String) (index : Nat) : Json → Except FieldFaults FloatMap.Record
  | .object members =>
    (FloatMap.Record.ofMembers Field.valued members).mapError fun faults =>
      faults.map fun f => (itemPath name index ++ "." ++ f.1, f.2)
  | _ => .error [(itemPath name index, .notObject)]

/-- The reading of a float map with the given fields. -/
def FloatMapReading.ofMembers (members : Members) : Except FieldFaults FloatMapReading :=
  let records := readArray "records" (recordAt "records") (Json.lookup members "records")
  let error := optional Field.onlyText (fieldOf members "error")
  match records, error with
  | .ok records, .ok error => .ok { records, error }
  | _, _ => .error (faultsOf records ++ faultOf "error" error)

end Analysis

end Demotion
