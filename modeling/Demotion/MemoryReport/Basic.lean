import Demotion.Json.Basic
import Demotion.Log.Basic
import Demotion.MemoryReport.Table
import Demotion.Text.Blank
import Demotion.Text.LowerCase
import Demotion.Text.Split

/-!
# Memory reports

A memory report is free text with headers and lines of the form `key: value`. A header either opens
one of four sections or closes the open one; a line under an open section sets a key of it, and the
last such line counts. Everything else is passed over.
-/

namespace Demotion.MemoryReport

/-- A section of a report. -/
inductive Section where
  | variables
  | literals
  | memory
  | breakdown
  deriving DecidableEq, Repr

namespace Section

/-- The sections in the order in which headers are looked for. -/
def all : List Section := [.variables, .literals, .memory, .breakdown]

/-- The name of a section. -/
def name : Section → String
  | .variables => "variables"
  | .literals => "literals"
  | .memory => "memory"
  | .breakdown => "breakdown"

/-- The text that opens a section wherever it stands in a line. -/
def header : Section → String
  | .variables => "VARIABLES:"
  | .literals => "LITERALS:"
  | .memory => "MEMORY USAGE:"
  | .breakdown => "BREAKDOWN:"

/-- The keys that are listed first in a section. -/
def leadingKeys : Section → List String
  | .variables => ["total_float_variables_found", "successfully_demoted", "demotion_success_rate"]
  | .literals => ["total_float_literals_found", "successfully_demoted", "demotion_success_rate"]
  | .memory =>
    ["original_memory_usage", "after_demotion", "memory_saved", "memory_reduction"]
  | .breakdown => []

end Section

/-! ## Lines -/

/-- A text with one underscore in the place of each run of white space. -/
def joinWords : List Char → List Char
  | [] => []
  | c :: rest =>
    if Text.isBlank c then
      match rest with
      | d :: _ => if Text.isBlank d then joinWords rest else '_' :: joinWords rest
      | [] => ['_']
    else c :: joinWords rest

/-- The key that a text stands for: without white space around it, in lower case, and with one
underscore for each run of white space in it. -/
def normalizeKey (key : String) : String :=
  String.ofList (joinWords (Text.lower (Text.trim key.toList)))

/-- The section that a line opens. -/
def openedSection? (line : List Char) : Option Section :=
  Section.all.find? fun s => Text.occurs s.header.toList line

/-- A character of a closing header after the first and before the colon. -/
def isHeaderChar (c : Char) : Bool :=
  c.isUpper || c.isDigit || " _/()&-".toList.contains c

/-- Capitals up to a colon at the end: the header of a section that is not read. -/
def isClosingHeader : List Char → Bool
  | [] => false
  | c :: rest =>
    c.isUpper && (rest.dropWhile isHeaderChar == [':'])

/-- The text before the first colon and the text after it. -/
def splitColon? : List Char → Option (List Char × List Char)
  | [] => none
  | ':' :: rest => some ([], rest)
  | c :: rest => (splitColon? rest).map fun r => (c :: r.1, r.2)

/-- The key and the value of a line with a colon, text before it and anything after it. -/
def splitPair? (line : List Char) : Option (String × String) :=
  match splitColon? line with
  | none => none
  | some (key, value) =>
    if Text.isBlankText key || value.isEmpty then none
    else some (normalizeKey (String.ofList key), String.ofList (Text.trim value))

/-- What a line does. -/
inductive Line where
  | opens (s : Section)
  | closes
  | sets (key value : String)
  | nothing
  deriving DecidableEq, Repr

/-- What a line does. The headers are looked for first. -/
def lineOf (line : List Char) : Line :=
  match openedSection? line with
  | some s => .opens s
  | none =>
    if isClosingHeader (Text.trim line) then .closes
    else match splitPair? line with
      | some (key, value) => .sets key value
      | none => .nothing

end MemoryReport

/-! ## Reports -/

/-- A report: a table for each section. -/
structure MemoryReport where
  ofVariables : Table
  ofLiterals : Table
  ofMemory : Table
  ofBreakdown : Table
  deriving DecidableEq, Repr

namespace MemoryReport

/-- The report without entries. -/
def empty : MemoryReport := ⟨[], [], [], []⟩

/-- The table of a section. -/
def table (r : MemoryReport) : Section → Table
  | .variables => r.ofVariables
  | .literals => r.ofLiterals
  | .memory => r.ofMemory
  | .breakdown => r.ofBreakdown

/-- Sets a key of a section. -/
def set (r : MemoryReport) (s : Section) (key value : String) : MemoryReport :=
  match s with
  | .variables => { r with ofVariables := Assoc.set key value r.ofVariables }
  | .literals => { r with ofLiterals := Assoc.set key value r.ofLiterals }
  | .memory => { r with ofMemory := Assoc.set key value r.ofMemory }
  | .breakdown => { r with ofBreakdown := Assoc.set key value r.ofBreakdown }

/-- A report read up to some line, and the section that is open there. -/
structure Progress where
  report : MemoryReport
  current : Option Section

/-- Reads one more line. -/
def Progress.step (p : Progress) (line : List Char) : Progress :=
  match lineOf line, p.current with
  | .opens s, _ => { p with current := some s }
  | .closes, _ => { p with current := none }
  | .sets key value, some s => { p with report := p.report.set s key value }
  | .sets _ _, none => p
  | .nothing, _ => p

/-- Reads a report. -/
def parse (text : String) : MemoryReport :=
  ((Text.lines text.toList).foldl Progress.step ⟨.empty, none⟩).report

/-- The entries of a section, its leading keys first. -/
def entries (r : MemoryReport) (s : Section) : Table :=
  (r.table s).withFirst s.leadingKeys

/-- The JSON object of a report. -/
def toJson (r : MemoryReport) : Json :=
  .record (Section.all.map fun s =>
    (s.name, .record ((r.entries s).map fun e => (e.1, .text e.2))))

/-- What is logged of a report: how many keys each section has. -/
def log (r : MemoryReport) : List Log.Entry :=
  let counts := ", ".intercalate (Section.all.map fun s => s!"{s.name}={(r.table s).length}")
  [⟨.debug, "shared.float_analysis.report_parser", s!"Parsed memory report: {counts}"⟩]

end MemoryReport

end Demotion
