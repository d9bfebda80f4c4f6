import Demotion.Failure
import Demotion.Log.Basic
import Demotion.Submission

/-!
# Workspaces

Every analysis has a directory of its own, made under the directory of all workspaces from an id
and never from the name of the submission. `Workspace.acquire` makes it with the source in it and
`Workspace.release` removes it, unless workspaces are retained.
-/

namespace Demotion

/-- The directory of all workspaces, and whether it is known to be there. -/
structure Workspaces where
  root : FilePath
  ready : Bool
  deriving DecidableEq, Repr

/-- The directory of one analysis. -/
structure Workspace where
  id : String
  path : FilePath
  submittedName : Content
  deriving DecidableEq, Repr

namespace Workspaces

/-- The workspaces that settings speak of, not yet made ready. -/
def ofSettings (s : Settings) : Workspaces :=
  ⟨.ofText s.workspaceRoot, false⟩

/-- Makes the directory of all workspaces, unless that was done before. -/
def prepare (ws : Workspaces) (t : FileTree) : FileTree × Except Failure Workspaces :=
  if ws.ready then (t, .ok ws)
  else
    match Failure.ofPath? ws.root with
    | some failure => (t, .error failure)
    | none =>
      match t.makeDirectories ws.root with
      | (tree, .ok ()) => (tree, .ok { ws with ready := true })
      | (tree, .error e) => (tree, .error (.workspace (.root ws.root e)))

/-- The logger of workspaces. -/
def logger : String := Log.pipelineLogger "workspace_manager"

/-- What is logged when the directory is made. -/
def prepareLog (ws : Workspaces) : Except Failure Workspaces → List Log.Entry
  | .ok _ =>
    let root := ws.root.text
    if ws.ready then [] else [⟨.info, logger, s!"📁 Workspace root ready at: {root}"⟩]
  | .error _ => []

/-- The workspace of an id. -/
def workspace (ws : Workspaces) (id : String) (submittedName : Content) : Workspace :=
  ⟨id, ws.root.descend (Content.ofText ("ws_" ++ id)), submittedName⟩

end Workspaces

namespace Workspace

/-- The name of the source file in the workspace. -/
def sourceName (w : Workspace) : Content :=
  Submission.sourceName w.submittedName

/-- The source file in the directory. -/
def sourceFile (w : Workspace) : FileName :=
  .ofContent w.sourceName

/-- The path of the source file. -/
def sourcePath (w : Workspace) : FilePath :=
  w.path.child w.sourceName

/-- The tree without the directory, as far as it can be removed. -/
def discard (w : Workspace) (t : FileTree) : FileTree :=
  (t.removeDirectory w.path).1

/-- Makes the workspace, which must not be there, and writes the source into it. A name that no
file can have is found out only when the directory is made. -/
def acquire (w : Workspace) (source : List UInt8) (t : FileTree) :
    FileTree × Except Failure Workspace :=
  match Failure.ofPath? w.path with
  | some failure => (t, .error failure)
  | none =>
    match t.makeDirectory w.path with
    | .error e => (t, .error (.workspace (.create w.path e)))
    | .ok made =>
      match Failure.ofPath? w.sourcePath with
      | some failure => (made, .error failure)
      | none =>
        match made.writeFile w.sourcePath source with
        | .error e => (w.discard made, .error (.workspace (.write w.path e)))
        | .ok written => (written, .ok w)

/-- What is logged when a workspace is acquired. -/
def acquireLog (source : List UInt8) : Except Failure Workspace → List Log.Entry
  | .ok w =>
    let name := w.submittedName.shown
    [⟨.info, Workspaces.logger,
      s!"Acquired workspace {w.id} for \x27{name}\x27 ({source.length} bytes)"⟩]
  | .error _ => []

/-- What becomes of a workspace that is released. -/
inductive Release where
  | retained
  | gone
  | removed
  | refused (cause : FileError)
  deriving DecidableEq, Repr

/-- Gives up a workspace: it stays if workspaces are retained and is removed otherwise, as far as it
can be. -/
def release (retain : Bool) (w : Workspace) (t : FileTree) : FileTree × Release :=
  if retain then (t, .retained)
  else
    match t.node? w.path with
    | none => (t, .gone)
    | some _ =>
      match t.removeDirectory w.path with
      | (tree, .ok ()) => (tree, .removed)
      | (tree, .error e) => (tree, .refused e)

/-- The error of a release. -/
def Release.result (w : Workspace) : Release → Except WorkspaceError Unit
  | .refused cause => .error (.remove w.path cause)
  | _ => .ok ()

/-- What is logged when a workspace is released. -/
def Release.log (w : Workspace) : Release → List Log.Entry
  | .retained =>
    let path := w.path.text
    [⟨.info, Workspaces.logger, s!"Retaining workspace {w.id} at: {path}"⟩]
  | .gone => [⟨.debug, Workspaces.logger, s!"Workspace {w.id} already gone"⟩]
  | .removed => [⟨.debug, Workspaces.logger, s!"🧹 Released workspace {w.id}"⟩]
  | .refused cause =>
    let reason := (WorkspaceError.remove w.path cause).message
    [⟨.error, Workspaces.logger, s!"❌ {reason}"⟩]

end Workspace

end Demotion
