import Demotion.Text.Utf8
import Demotion.Workspace

/-!
# Artifacts

The tool may leave three files in its workspace. Each is collected on its own: its text if it is
there and well formed, a reading error if it cannot be opened or is not well formed, and nothing if
there is no such file. Only a path that cannot be looked up stops the collection.
-/

namespace Demotion

/-- A file that the tool may leave. -/
inductive Artifact where
  | demotedCode
  | memoryReport
  | floatMap
  deriving DecidableEq, Repr

namespace Artifact

/-- The artifacts in the order in which they are collected. -/
def all : List Artifact := [.demotedCode, .memoryReport, .floatMap]

/-- The name of the file. -/
def fileName : Artifact → String
  | .demotedCode => "demoted.c"
  | .memoryReport => "memory_analysis.txt"
  | .floatMap => "float_map.json"

/-- Why the text of a file cannot be had. -/
inductive ReadError where
  | file (error : FileError)
  | malformed (error : Text.Utf8.Malformed)
  deriving DecidableEq, Repr

/-- The reason in words. -/
def ReadError.message : ReadError → String
  | .file e => e.message
  | .malformed e => e.message

/-- What collecting an artifact gives. -/
inductive Reading where
  | absent
  | text (content : String)
  | unreadable (error : ReadError)
  deriving DecidableEq, Repr

/-- Reads the bytes of an artifact. -/
def ofBytes (bytes : List UInt8) : Reading :=
  match Text.Utf8.decode bytes with
  | .ok s => .text (String.ofList s)
  | .error e => .unreadable (.malformed e)

/-- The path of an artifact. -/
def path (a : Artifact) (w : Workspace) : FilePath :=
  w.path.child a.fileName

/-- What is read of what is found at the path of an artifact. Only a file counts, whether it can be
opened or not. -/
def ofFound (path : FilePath) : Option Node → Reading
  | some (.file bytes) => ofBytes bytes
  | some (.closed (.file _) fault) => .unreadable (.file (FileTree.refused fault path))
  | _ => .absent

/-- Collects an artifact of a workspace. -/
def collect (w : Workspace) (t : FileTree) (a : Artifact) : Except FileError Reading :=
  match t.locate (a.path w) with
  | .error fault =>
    if fault.meansAbsent then .ok .absent else .error (FileTree.refused fault (a.path w))
  | .ok place => .ok (ofFound (a.path w) (t.top.foundAt? place))

/-- The text of a reading. -/
def Reading.text? : Reading → Option String
  | .text content => some content
  | _ => none

/-- The error of a reading, with the name of the file. -/
def Reading.error? (a : Artifact) : Reading → Option String
  | .unreadable e => some (a.fileName ++ ": " ++ e.message)
  | _ => none

end Artifact

/-- The texts of the artifacts that could be read, and the errors of those that could not. -/
structure Artifacts where
  demotedCode : Option String
  memoryReport : Option String
  floatMap : Option String
  readErrors : List String
  deriving DecidableEq, Repr

namespace Artifacts

/-- The readings of the artifacts of a workspace, up to the first that cannot be looked up. -/
structure Found where
  readings : List (Artifact × Artifact.Reading)
  error : Option FileError
  deriving DecidableEq, Repr

/-- Reads artifacts one after the other. -/
def findAll (w : Workspace) (t : FileTree) : List Artifact → Found
  | [] => ⟨[], none⟩
  | a :: rest =>
    match a.collect w t with
    | .error e => ⟨[], some e⟩
    | .ok reading =>
      let others := findAll w t rest
      { others with readings := (a, reading) :: others.readings }

/-- Reads the artifacts of a workspace. -/
def find (w : Workspace) (t : FileTree) : Found :=
  findAll w t Artifact.all

namespace Found

/-- The text that was read of an artifact. -/
def text? (f : Found) (a : Artifact) : Option String :=
  (f.readings.find? fun r => r.1 = a).bind (·.2.text?)

/-- The artifacts that were found, or why one cannot be looked up. -/
def artifacts (f : Found) : Except FileError Artifacts :=
  match f.error with
  | some e => .error e
  | none => .ok {
      demotedCode := f.text? .demotedCode
      memoryReport := f.text? .memoryReport
      floatMap := f.text? .floatMap
      readErrors := f.readings.filterMap fun r => r.2.error? r.1 }

end Found

/-- Collects the artifacts of a workspace. -/
def collect (w : Workspace) (t : FileTree) : Except FileError Artifacts :=
  (find w t).artifacts

/-- The logger of artifacts. -/
def logger : String := Log.pipelineLogger "artifact_collector"

/-- What is logged of an artifact. -/
def readingLog (a : Artifact) : Artifact.Reading → List Log.Entry
  | .absent => []
  | .text content =>
    let name := a.fileName
    [⟨.debug, logger, s!"📄 Collected {name} ({content.length} chars)"⟩]
  | .unreadable e =>
    let name := a.fileName
    let reason := e.message
    [⟨.warning, logger, s!"⚠️ Could not read artifact {name}: {reason}"⟩]

/-- What is logged when the artifacts are collected. -/
def Found.log (f : Found) (w : Workspace) : List Log.Entry :=
  let found := (f.readings.filterMap (·.2.text?)).length
  let total := Artifact.all.length
  f.readings.flatMap (fun r => readingLog r.1 r.2) ++
    if f.error.isSome then []
    else [⟨.info, logger, s!"📦 Collected {found}/{total} artifacts from workspace {w.id}"⟩]

end Artifacts

end Demotion
