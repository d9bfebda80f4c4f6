import Demotion.FilePath
import Demotion.FileTree.Basic

/-!
# Access to files by path

A path is followed name by name (`FileTree.locate`): what it passes through must be directories that
can be entered, and only its last name may lead to nothing. The operations report what stands in the
way as a `FileError`, which says why (`FileFault`) and for which path.

Of a directory that is removed stays what cannot be opened (`Node.stays?`), with what comes after it
in its directory, because removing stops there.
-/

namespace Demotion

/-- That a path has the null character, in words. -/
def nullMessage : String := "embedded null byte"

/-- What a file operation was about: a file by its name, or a directory as such. -/
inductive FileSubject where
  | name (content : Content)
  | directory (path : FilePath)
  deriving DecidableEq, Repr

/-- The subject as an error shows it. -/
def FileSubject.shown : FileSubject → String
  | .name content => Text.quoted content
  | .directory path => "PosixPath(" ++ Text.quoted path.content ++ ")"

/-- A refused file operation. -/
structure FileError where
  fault : FileFault
  subject : FileSubject
  deriving DecidableEq, Repr

/-- The error in words. -/
def FileError.message (e : FileError) : String :=
  let reason := e.fault.reason
  let shown := e.subject.shown
  match e.fault.code? with
  | some code => s!"[Errno {code}] {reason}: {shown}"
  | none => reason

namespace Node

/-- The content of what is found at a node, if it is a file that can be opened. -/
def content : Node → Except FileFault (List UInt8)
  | .file content => .ok content
  | .directory _ => .error .isDirectory
  | .closed _ fault => .error fault
  | .link node => node.content

mutual

/-- What stays of an entry of a directory that is removed, and why. A directory that cannot be opened
stays; anything else that is no directory can be removed. -/
def stuck? (name : FileName) : Node → Option (Node × FileError)
  | .directory es => (stuckIn? es).map fun left => (.directory left.1, left.2)
  | .closed .directory fault => some (.closed .directory fault, ⟨fault, .name name.content⟩)
  | _ => none

/-- What stays of the entries of a directory that is removed, and why. -/
def stuckIn? : List (FileName × Node) → Option (List (FileName × Node) × FileError)
  | [] => none
  | (name, node) :: rest =>
    match node.stuck? name with
    | some left => some ((name, left.1) :: rest, left.2)
    | none => stuckIn? rest

end

/-- What stays of the node at a path when it is removed as a directory, and why. -/
def stays? (p : FilePath) (node : Node) : Option (Node × FileError) :=
  match node with
  | .directory es => (stuckIn? es).map fun left => (.directory left.1, left.2)
  | .file _ => some (node, ⟨.notDirectory, .directory p⟩)
  | .closed _ fault => some (node, ⟨fault, .directory p⟩)
  | .link _ =>
    match node.kind with
    | .closed _ fault => some (node, ⟨fault, .directory p⟩)
    | _ => some (node, ⟨.link, .directory p⟩)

end Node

/-- All files, and the directory that relative paths start in. -/
structure FileTree where
  top : Node
  working : Place

namespace FileTree

/-- The most bytes that a name may have. -/
def maxName : Nat := 255

/-- The most bytes that the text of a path may have. -/
def maxPath : Nat := 4095

/-- The place that names lead to. The nodes on the way must be directories that can be entered. -/
def walk (top : Node) : Place → List Content → Except FileFault Place
  | place, [] => .ok place
  | place, name :: rest =>
    match top.enter place with
    | .error fault => .error fault
    | .ok () =>
      if name = Content.ofText ".." then walk top place.dropLast rest
      else if maxName < name.size then .error .nameTooLong
      else walk top (place ++ [.ofContent name]) rest

/-- The place that a path leads to. -/
def locate (t : FileTree) (p : FilePath) : Except FileFault Place :=
  if maxPath < p.content.size then .error .nameTooLong
  else walk t.top (if p.start = .here then t.working else []) p.names

/-- What is found where a path leads to. -/
def node? (t : FileTree) (p : FilePath) : Option Node :=
  match t.locate p with
  | .ok place => t.top.foundAt? place
  | .error _ => none

/-- Whether a path leads to a directory. -/
def isDirectory (t : FileTree) (p : FilePath) : Bool :=
  (t.node? p).any (·.kind.isDirectory)

/-- The content of the file that a path leads to, if it leads to one that can be opened. -/
def file? (t : FileTree) (p : FilePath) : Option (List UInt8) :=
  match t.node? p with
  | some (.file content) => some content
  | _ => none

/-- The fault of an operation on a file, with its path. -/
def refused (fault : FileFault) (p : FilePath) : FileError :=
  ⟨fault, .name p.content⟩

/-- Reads a file. -/
def readFile (t : FileTree) (p : FilePath) : Except FileError (List UInt8) :=
  match t.locate p with
  | .error fault => .error (refused fault p)
  | .ok place =>
    match t.top.get? place with
    | some node => node.content.mapError (refused · p)
    | none => .error (refused .missing p)

/-- Gives a file a content that depends on the one it has, which is empty for a new file. -/
def updateFile (t : FileTree) (p : FilePath) (update : List UInt8 → List UInt8) :
    Except FileError FileTree :=
  match t.locate p with
  | .error fault => .error (refused fault p)
  | .ok place =>
    let holding (content : List UInt8) : FileTree :=
      { t with top := t.top.change place (some (.file (update content))) }
    match t.top.get? place with
    | some node => (node.content.map holding).mapError (refused · p)
    | none => .ok (holding [])

/-- Writes a file, new or in place of the old content. -/
def writeFile (t : FileTree) (p : FilePath) (content : List UInt8) : Except FileError FileTree :=
  t.updateFile p fun _ => content

/-- Writes at the end of a file, which is made if there is none. -/
def appendFile (t : FileTree) (p : FilePath) (content : List UInt8) : Except FileError FileTree :=
  t.updateFile p (· ++ content)

/-- Makes a directory at a free place. -/
def makeDirectory (t : FileTree) (p : FilePath) : Except FileError FileTree :=
  match t.locate p with
  | .error fault => .error (refused fault p)
  | .ok place =>
    match t.top.get? place with
    | none => .ok { t with top := t.top.put place (.directory []) }
    | some _ => .error (refused .exists p)

/-- Makes a directory unless it is there, and first the directories that lead to it. What was made
stays also if a later one cannot be made. -/
def makeDirectories (t : FileTree) (p : FilePath) : FileTree × Except FileError Unit :=
  match t.makeDirectory p with
  | .ok made => (made, .ok ())
  | .error e =>
    if e.fault = .missing then
      if p.names = [] then (t, .error e)
      else
        match makeDirectories t p.parent with
        | (tree, .error e) => (tree, .error e)
        | (tree, .ok ()) =>
          match tree.makeDirectory p with
          | .ok made => (made, .ok ())
          | .error e => (tree, if tree.isDirectory p then .ok () else .error e)
    else (t, if t.isDirectory p then .ok () else .error e)
termination_by p.names.length
decreasing_by
  have := List.length_pos_iff.mpr ‹¬p.names = []›
  simp only [FilePath.parent, List.length_dropLast]
  omega

/-- Removes a directory with all that is in it. What was removed before something stays is gone. -/
def removeDirectory (t : FileTree) (p : FilePath) : FileTree × Except FileError Unit :=
  match t.locate p with
  | .error fault => (t, .error ⟨fault, .directory p⟩)
  | .ok place =>
    match t.top.get? place with
    | none => (t, .error ⟨.missing, .directory p⟩)
    | some node =>
      let left? := node.stays? p
      ({ t with top := t.top.assign place (left?.map (·.1)) },
        match left? with
        | some left => .error left.2
        | none => .ok ())

end FileTree

end Demotion
