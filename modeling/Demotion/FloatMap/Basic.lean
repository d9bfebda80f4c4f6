import Demotion.FloatMap.Record
import Demotion.FloatMap.Repair
import Demotion.Json.Reader
import Demotion.Log.Basic

/-!
# Reading a float map

A float map is a JSON array of records. `parse` mends the text, reads it and keeps the entries that
are records; what it could not use becomes a `Problem`. Only containers that stand too deep in each
other stop it.
-/

namespace Demotion.FloatMap

/-- Why an entry is no record. -/
inductive EntryFault where
  | notObject
  | fields (count : Nat)
  deriving DecidableEq, Repr

/-- What could not be used of a float map. -/
inductive Problem where
  | unreadable (error : Json.ReadError)
  | notArray (kind : String)
  | skipped (entries : List (Nat × EntryFault))
  deriving DecidableEq, Repr

/-- The records of a float map, and what could not be used of it. -/
structure Parsed where
  records : List Record
  problem : Option Problem
  deriving DecidableEq, Repr

/-- The record of an entry. A number counts as the text that spells it. -/
def readEntry : Json → Except EntryFault Record
  | .object members =>
    match Record.ofMembers Field.spelled members with
    | .ok r => .ok r
    | .error faults => .error (.fields faults.length)
  | _ => .error .notObject

/-- The records among the entries. -/
def recordsOf (entries : List Json) : List Record :=
  entries.filterMap fun v => (readEntry v).toOption

/-- The entries that are no records, numbered from `index`. -/
def skippedFrom (index : Nat) : List Json → List (Nat × EntryFault)
  | [] => []
  | v :: vs =>
    match readEntry v with
    | .ok _ => skippedFrom (index + 1) vs
    | .error fault => (index, fault) :: skippedFrom (index + 1) vs

/-- The name of the kind of a value. A number counts as the text that spells it. -/
def kindName : Json → String
  | .null => "NoneType"
  | .bool _ => "bool"
  | .number _ => "str"
  | .string _ => "str"
  | .array _ => "list"
  | .object _ => "dict"

/-- The records of a JSON value. -/
def ofJson : Json → Parsed
  | .array entries =>
    let skipped := skippedFrom 0 entries
    { records := recordsOf entries
      problem := if skipped.isEmpty then none else some (.skipped skipped) }
  | v => { records := [], problem := some (.notArray (kindName v)) }

/-- Reads a float map. Containers that stand more than `depth` deep stop it. -/
def parse (depth : Nat) (raw : String) : Except Json.Container Parsed :=
  match Json.read depth none (sanitize raw) with
  | .ok v => .ok (ofJson v)
  | .error (.nested container) => .error container
  | .error e => .ok { records := [], problem := some (.unreadable e) }

/-- An entry that was skipped, in words. -/
def entryMessage (entry : Nat × EntryFault) : String :=
  match entry with
  | (index, .notObject) => s!"#{index}: not an object"
  | (index, .fields count) => s!"#{index}: {count} validation error(s)"

/-- The problem in words. -/
def Problem.message : Problem → String
  | .unreadable e =>
    let reason := e.message
    s!"Invalid float map JSON: {reason}"
  | .notArray kind => s!"Float map must be a JSON array, got {kind}"
  | .skipped entries =>
    let noun := if entries.length = 1 then "entry" else "entries"
    let list := "; ".intercalate (entries.map entryMessage)
    s!"Skipped {entries.length} invalid float map {noun}: {list}"

/-- What is logged of a reading: the problem, and how many records there are unless the text is no
array. -/
def Parsed.log (p : Parsed) : List Log.Entry :=
  let entry (level : Log.Level) (message : String) : Log.Entry :=
    ⟨level, "shared.float_analysis.sanitizer", message⟩
  let count := entry .debug s!"Parsed float map with {p.records.length} records"
  match p.problem with
  | some (.unreadable e) =>
    let reason := e.message
    [entry .warning s!"⚠️ float map is not valid JSON after sanitization: {reason}"]
  | some (.notArray kind) =>
    [entry .warning s!"⚠️ float map top level is {kind}, expected array"]
  | some problem =>
    let reason := problem.message
    [entry .warning s!"⚠️ {reason}", count]
  | none => [count]

end Demotion.FloatMap
