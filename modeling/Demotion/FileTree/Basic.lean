import Demotion.Assoc
import Demotion.FileName

/-!
# Trees of files

A node is a file with its content, a directory with its entries, a link, or something that the system
does not let open. A place is a list of names that leads from the top of the tree to a node; `get?`
gives the node at a place and `assign` changes what is there and nothing else. Of entries with
the same name the first counts, and one with a new name goes to the end, so that erasing what was put
at a free place restores the tree.

A link leads to a node (`Node.found`), and names lead on from there. Where else in the tree that node
stands is of no interest here; links that lead nowhere are left out.
-/

namespace Demotion

/-- Why a file operation is refused. -/
inductive FileFault where
  | missing
  | denied
  | exists
  | notDirectory
  | isDirectory
  | nameTooLong
  | link
  | other (code : Nat) (reason : String)
  deriving DecidableEq, Repr

namespace FileFault

/-- The number of a fault. That a link is not removed like a directory has none. -/
def code? : FileFault → Option Nat
  | .missing => some 2
  | .denied => some 13
  | .exists => some 17
  | .notDirectory => some 20
  | .isDirectory => some 21
  | .nameTooLong => some 36
  | .link => none
  | .other code _ => some code

/-- The fault in words. -/
def reason : FileFault → String
  | .missing => "No such file or directory"
  | .denied => "Permission denied"
  | .exists => "File exists"
  | .notDirectory => "Not a directory"
  | .isDirectory => "Is a directory"
  | .nameTooLong => "File name too long"
  | .link => "Cannot call rmtree on a symbolic link"
  | .other _ reason => reason

/-- Whether a fault that is met when a path is looked up says that there is nothing. -/
def meansAbsent (fault : FileFault) : Bool :=
  fault.code?.any [2, 9, 20, 40].contains

end FileFault

/-- What the system may refuse to open: a file with its content, a directory, or something else, such
as a pipe. -/
inductive Closed where
  | file (content : List UInt8)
  | directory
  | other
  deriving DecidableEq, Repr

/-- A file, a directory, something that is not opened with the fault that says why, or a link with the
node that it leads to. -/
inductive Node where
  | file (content : List UInt8)
  | directory (entries : List (FileName × Node))
  | closed (what : Closed) (fault : FileFault)
  | link (target : Node)

/-- The kind of what is found: all of it but what an open file or directory holds. -/
inductive Kind where
  | file
  | directory
  | closed (what : Closed) (fault : FileFault)
  deriving DecidableEq, Repr

namespace Kind

/-- Whether nodes of a kind are directories. -/
def isDirectory : Kind → Bool
  | .directory => true
  | .closed .directory _ => true
  | _ => false

/-- What stands in the way of a path through a node of a kind, or where there is none. -/
def enter : Option Kind → Except FileFault Unit
  | some .directory => .ok ()
  | some (.closed .directory fault) => .error fault
  | some _ => .error .notDirectory
  | none => .error .missing

end Kind

/-- The names that lead from the top of a tree to a node. -/
abbrev Place := List FileName

namespace Node

/-- What is found at a node: where it leads to if it is a link. -/
def found : Node → Node
  | .link node => node.found
  | node => node

/-- The kind of what is found at a node. -/
def kind : Node → Kind
  | .file _ => .file
  | .directory _ => .directory
  | .closed what fault => .closed what fault
  | .link node => node.kind

/-- The entries of the directory that is found at a node; anything else has none. -/
def entries : Node → List (FileName × Node)
  | .directory es => es
  | .link node => node.entries
  | _ => []

/-- The node with other entries of the directory that is found there. -/
def withEntries (es : List (FileName × Node)) : Node → Node
  | .directory _ => .directory es
  | .link node => .link (node.withEntries es)
  | node => node

/-- The node at a place. -/
def get? (node : Node) : Place → Option Node
  | [] => some node
  | name :: rest => (Assoc.find? name node.entries).bind (·.get? rest)

/-- The tree with the entries of the directory at a place changed. -/
def modify (change : List (FileName × Node) → List (FileName × Node)) (node : Node) : Place → Node
  | [] => node.withEntries (change node.entries)
  | name :: rest =>
    match Assoc.find? name node.entries with
    | some inner => node.withEntries (Assoc.set name (inner.modify change rest) node.entries)
    | none => node

/-- The tree with a node at a place in an existing directory, or nothing there. -/
def assign (top : Node) (place : Place) (node? : Option Node) : Node :=
  match place.getLast? with
  | some name => top.modify (Assoc.assign name node?) place.dropLast
  | none => node?.getD top

/-- The tree with a node put at a place. -/
def put (top : Node) (place : Place) (node : Node) : Node :=
  top.assign place (some node)

/-- The tree without the node at a place. -/
def erase (top : Node) (place : Place) : Node :=
  top.assign place none

/-- What is found at a place. -/
def foundAt? (top : Node) (place : Place) : Option Node :=
  (top.get? place).map found

/-- The kind of what is found at a place. -/
def kindAt? (top : Node) (place : Place) : Option Kind :=
  (top.get? place).map kind

/-- What becomes of a node when something else is to be found at it, or nothing. A link stays and leads
there. -/
def changed (found? : Option Node) : Node → Option Node
  | .link node => (node.changed found?).map link
  | _ => found?

/-- The tree with something else found at a place, or nothing. -/
def change (top : Node) (place : Place) (found? : Option Node) : Node :=
  match top.get? place with
  | some node => top.assign place (node.changed found?)
  | none => top.assign place found?

/-- What stands in the way of a path through a place. -/
def enter (top : Node) (place : Place) : Except FileFault Unit :=
  Kind.enter (top.kindAt? place)

end Node

end Demotion
