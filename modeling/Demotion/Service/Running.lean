import Demotion.Log.Delivery
import Demotion.Service.Basic

/-!
# The running service

A running service has set up its log and made the directory of all workspaces. It answers one
request after the other; what it logs goes to the files of its log.
-/

namespace Demotion.Service

/-- Why the service does not start. -/
inductive StartError where
  | settings (error : Settings.Invalid)
  | log (error : Log.SetupError)
  | failure (failure : Failure)
  deriving DecidableEq, Repr

/-- The error in words. -/
def StartError.message : StartError → String
  | .settings e => e.message
  | .log e => e.message
  | .failure f => f.message

/-- A service that has started, the files, its log, and how many analyses it has run. -/
structure Running where
  service : Service
  setup : Log.Setup
  tree : FileTree
  log : List Log.Entry
  analyses : Nat

/-- Adds to the log. -/
def Running.record (r : Running) (time : String) (log : List Log.Entry) : Running :=
  { r with tree := Log.deliver r.setup time log r.tree, log := r.log ++ log }

/-- Starts the service. -/
def start (s : Settings) (time : String) (t : FileTree) : Except StartError Running :=
  match create s with
  | .error e => .error (.settings e)
  | .ok svc =>
    match Log.setUp .initial s.logLevel s.logFile t with
    | .error e => .error (.log e)
    | .ok (setup, tree) =>
      let (tree, prepared) := svc.workspaces.prepare tree
      match prepared with
      | .error f => .error (.failure f)
      | .ok workspaces =>
        let running : Running := ⟨{ svc with workspaces }, setup, tree, [], 0⟩
        .ok (running.record time (svc.workspaces.prepareLog prepared))

/-- Changes the settings of a running service. -/
def Running.configure (r : Running) (change : Settings → Settings) : Running :=
  { r with service := { r.service with settings := change r.service.settings } }

/-- Answers a request. -/
def Running.answer (r : Running) (c : Analysis.Circumstances) (time : String) (req : Request) :
    Running × Response :=
  let (response, handled) := r.service.handle c time req r.tree
  let analyses := if handled.analysed then r.analyses + 1 else r.analyses
  ({ r with tree := handled.tree, analyses }.record time handled.log, response)

end Demotion.Service
