import Demotion.FileTree.Access
import Demotion.Log.Line
import Demotion.Log.Setup
import Demotion.Settings
import Demotion.Text.Utf8

/-!
# Delivering the log

A file that a setup names is made when the log is set up, and each entry that counts is written at
its end. The console gets the same lines. The name of the file is made absolute first, and in that
two dots take back the name before them whatever is there.
-/

namespace Demotion.Log

/-- Why the log could not be set up. -/
inductive SetupError where
  | level (error : LevelError)
  | file (error : FileError)
  | null
  deriving DecidableEq, Repr

/-- Names of which two dots take back the one before. -/
def collapse (names : List Content) : List Content :=
  names.foldl (fun kept name =>
    if name = Content.ofText ".." then kept.dropLast else kept ++ [name]) []

/-- The path of a log file, from the top of the tree. -/
def filePath (t : FileTree) (name : String) : FilePath :=
  let p := FilePath.ofText name
  if p.start = .here then ⟨.top, collapse (t.working.map FileName.content ++ p.names)⟩
  else ⟨p.start, collapse p.names⟩

/-- Writes at the end of a log file. -/
def appendTo (t : FileTree) (name text : String) : Except FileError FileTree :=
  t.appendFile (filePath t name) (Text.Utf8.encode text.toList)

/-- Makes the file of a log, if one is named. -/
def openFile (file : Option String) (t : FileTree) : Except SetupError FileTree :=
  match file with
  | none => .ok t
  | some name =>
    if name = "" then .ok t
    else if Content.hasNull name then .error .null
    else
      match appendTo t name "" with
      | .ok tree => .ok tree
      | .error e => .error (.file e)

/-- Sets up the log by the word for a level and the name of a file. The file is made first. -/
def setUp (s : Setup) (word : String) (file : Option String) (t : FileTree) :
    Except SetupError (Setup × FileTree) :=
  match openFile file t with
  | .error e => .error e
  | .ok tree =>
    match levelNamed word with
    | .error e => .error (.level e)
    | .ok level => .ok (s.configure level file, tree)

/-- A call to set up the log: the word for a level and the name of a file, each of which may be
left out, and the environment that it is made in. -/
structure Call where
  level : Option String
  file : Option String
  environment : Environment

namespace Call

/-- The word for the level of a call. If it is left out, the environment gives it. -/
def word (c : Call) : String :=
  c.level.getD ((c.environment "LOG_LEVEL").getD "INFO")

/-- Sets up the log by a call. -/
def setUp (c : Call) (s : Setup) (t : FileTree) : Except SetupError (Setup × FileTree) :=
  Log.setUp s c.word c.file t

end Call

/-- Sets up the log by one call after the other, up to the first that fails. -/
def setUpAll : List Call → Setup → FileTree → Except SetupError (Setup × FileTree)
  | [], s, t => .ok (s, t)
  | c :: rest, s, t =>
    match c.setUp s t with
    | .error e => .error e
    | .ok (s, t) => setUpAll rest s t

/-- The text that a handler gets of a log. -/
def Setup.text (s : Setup) (time : String) (h : Handler) (log : List Entry) : String :=
  String.join ((s.delivered h log).map (Entry.line time))

/-- The tree after a log is written to the file of a handler. -/
def writeTo (s : Setup) (time : String) (log : List Entry) (t : FileTree) : Handler → FileTree
  | .console => t
  | .file name =>
    match appendTo t name (s.text time (.file name) log) with
    | .ok tree => tree
    | .error _ => t

/-- The tree after a log is written to the files of a setup. -/
def deliver (s : Setup) (time : String) (log : List Entry) (t : FileTree) : FileTree :=
  s.handlers.foldl (writeTo s time log) t

/-- The error in words. -/
def SetupError.message : SetupError → String
  | .level e => e.message
  | .file e => e.message
  | .null => nullMessage

end Demotion.Log
