import Demotion.FileTree.Access
import Demotion.Number.Decimal
import Demotion.Host

/-!
# What stops an analysis

An analysis is stopped by its workspace, by the time limit of the tool, or by a setting, a name or a
path that the system does not take at all (`Failure.ofPath?`). The first two are failures of the
service and expected as such (`Failure.isExpected`).
-/

namespace Demotion

/-- What could not be done with a workspace, or with the directory of all workspaces. -/
inductive WorkspaceError where
  | root (path : FilePath) (cause : FileError)
  | create (path : FilePath) (cause : FileError)
  | write (path : FilePath) (cause : FileError)
  | remove (path : FilePath) (cause : FileError)
  deriving DecidableEq, Repr

/-- The error in words. -/
def WorkspaceError.message : WorkspaceError → String
  | .root path cause => "Could not create workspace root " ++ path.text ++ ": " ++ cause.message
  | .create path cause => "Could not create workspace " ++ path.text ++ ": " ++ cause.message
  | .write path cause =>
    "Could not write source into workspace " ++ path.text ++ ": " ++ cause.message
  | .remove path cause => "Could not remove workspace " ++ path.text ++ ": " ++ cause.message

/-- Why an analysis ends without a result. -/
inductive Failure where
  | workspace (error : WorkspaceError)
  | timeout (limit : Binary64)
  | null
  | unencodable (error : Unencodable)
  | file (error : FileError)
  | outputLimit (error : ReadSizeError)
  deriving DecidableEq, Repr

namespace Failure

/-- The failure in words. -/
def message : Failure → String
  | .workspace error => error.message
  | .timeout limit =>
    let seconds := limit.brief
    s!"Analysis tool timed out after {seconds} seconds"
  | .null => nullMessage
  | .unencodable error => error.message
  | .file error => error.message
  | .outputLimit error => error.message

/-- Why the system does not take a content in a path or a command. It is encoded before the null
character is looked for. -/
def ofContent? (c : Content) : Option Failure :=
  match c.refused? Content.isByte 0 with
  | some error => some (.unencodable error)
  | none => if c.hasNull then some .null else none

/-- Why the system does not take a path at all. -/
def ofPath? (p : FilePath) : Option Failure :=
  ofContent? p.content

/-- Whether the service expects such failures. -/
def isExpected : Failure → Bool
  | .workspace _ => true
  | .timeout _ => true
  | _ => false

end Failure

end Demotion
