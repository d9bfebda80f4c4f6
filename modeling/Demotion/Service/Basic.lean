import Demotion.Analysis.Run
import Demotion.Json.Printer
import Demotion.Service.Form
import Demotion.Service.Origin
import Demotion.Service.Target
import Demotion.Text.UpperCase

/-!
# The service

The service answers requests by route: some report on the service itself, and one takes an upload
and runs an analysis on it. `Service.handle` gives the answer to a request together with the files
and the log after it.
-/

namespace Demotion

namespace Service

/-- A request to the service. -/
structure Request where
  method : String
  target : Target
  form : Form
  origin : Option String
  deriving DecidableEq, Repr

/-- An answer of the service. A page that is not JSON has no body here. -/
structure Response where
  status : Nat
  body : Option Json
  allowOrigin : Option String

/-- What the service can be asked for. -/
inductive Route where
  | greeting
  | info
  | configuration
  | health
  | documentation
  | schema
  | analyze
  deriving DecidableEq, Repr

/-- The paths of the service. Documentation may be switched off. -/
def paths (documented : Bool) : List (String × Route) :=
  [("/", .greeting), ("/api/info", .info), ("/api/config", .configuration), ("/health", .health),
    ("/analyze", .analyze), ("/api/analyze", .analyze), ("/openapi.json", .schema)] ++
  if documented then [("/docs", .documentation), ("/docs/oauth2-redirect", .documentation),
    ("/redoc", .documentation)] else []

/-- The route that stands under a path. A line feed at its end does not matter. -/
def routeAt? (documented : Bool) (path : List Char) : Option Route :=
  let path := if path.getLast? = some '\n' then path.dropLast else path
  ((paths documented).find? fun e => e.1.toList = path).map (·.2)

/-- The route of a path. Slashes at the end of a path that is unknown as it stands do not
matter. -/
def route? (documented : Bool) (path : List Char) : Option Route :=
  (routeAt? documented path).or
    (routeAt? documented (path.reverse.dropWhile (· = '/')).reverse)

/-- Whether a route takes requests of a method. -/
def Route.allows : Route → String → Bool
  | .analyze, method => method = "POST"
  | .documentation, method => method = "GET" || method = "HEAD"
  | .schema, method => method = "GET" || method = "HEAD"
  | _, method => method = "GET"

end Service

/-- The service. Whether it is documented and for whom its answers are is settled when it is
made; the settings may change. -/
structure Service where
  settings : Settings
  workspaces : Workspaces
  documented : Bool
  origins : List String

namespace Service

/-- The name of the service. -/
def serviceName : String := "FP16 Demotion Plugin API Server"

/-- The version of the service. -/
def version : String := "1.0.0"

/-- The service with given settings, which must be valid. -/
def create (s : Settings) : Except Settings.Invalid Service :=
  match s.validate with
  | .error e => .error e
  | .ok () => .ok {
      settings := s
      workspaces := .ofSettings s
      documented := !s.isProduction
      origins := s.corsOrigins }

/-! ## Reports on the service -/

/-- What the service says about its use. -/
def infoBody (svc : Service) : Json :=
  .record [("service", .text serviceName), ("version", .text version),
    ("status", .text "running"), ("allowed_extensions", .texts svc.settings.allowedExtensions),
    ("max_upload_bytes", .int svc.settings.uploadLimit),
    ("endpoints", .record [
      ("analyze", .text "POST /analyze (multipart field \x27codeFile\x27)"),
      ("analyze_alias", .text "POST /api/analyze"), ("config", .text "GET /api/config"),
      ("health", .text "GET /health")])]

/-- What the service says about the tool. -/
def configurationBody (svc : Service) (now : String) : Json :=
  .record [("clang_path", .text svc.settings.clangPath),
    ("plugin_path", .text svc.settings.pluginPath), ("plugin_name", .text svc.settings.pluginName),
    ("analysis_flag", .text svc.settings.analysisFlag),
    ("tool_timeout_seconds", Analysis.realToJson svc.settings.toolTimeout),
    ("retain_workspaces", .bool svc.settings.retainWorkspaces), ("timestamp", .text now)]

/-- What the service says about its state. -/
def healthBody (svc : Service) (now : String) (t : FileTree) : Json :=
  .record [("status", .text "healthy"), ("service", .text serviceName),
    ("version", .text version), ("workspace_root", .string svc.workspaces.root.content),
    ("workspace_root_ready", .bool (t.isDirectory svc.workspaces.root)), ("timestamp", .text now)]

/-! ## Analysing an upload -/

/-- What is answered: a status and a body, or nothing where the service breaks off. -/
inductive Answer where
  | page (status : Nat) (body : Option Json)
  | broken

/-- An answer that reports an error. -/
def Answer.error (status : Nat) (message : String) : Answer :=
  .page status (some (.record [("success", .bool false), ("error", .text message)]))

/-- An answer that has a detail only. -/
def Answer.detail (status : Nat) (detail : Json) : Answer :=
  .page status (some (.record [("detail", detail)]))

/-- An answer to a request, with the files and the log after it, and whether an analysis was run. -/
structure Handled where
  answer : Answer
  tree : FileTree
  log : List Log.Entry
  analysed : Bool

/-- An answer without an analysis and without a log. -/
def Answer.only (a : Answer) (t : FileTree) : Handled :=
  ⟨a, t, [], false⟩

/-- The most bytes of an upload that is kept in memory. -/
def maxInMemory : Nat := 1024 * 1024

/-- Refuses a number of bytes up to which an upload cannot be read. One in memory can be read up to
any index, and to its end by a negative one. -/
def checkSize (host : Host) (inMemory : Bool) (size : Int) : Except ReadSizeError Unit :=
  if inMemory then ReadSize.checkIndex size else ReadSize.check host.memory size

/-- The part of an upload that is read: one byte more than the limit, which shows whether there
are too many. -/
def readUpload (host : Host) (limit : Int) (content : List UInt8) :
    Except ReadSizeError (List UInt8) :=
  match checkSize host (content.length ≤ maxInMemory) (limit + 1) with
  | .error e => .error e
  | .ok () => .ok (if limit + 1 < 0 then content else content.take (limit + 1).toNat)

/-- The field of a form that uploads stand in. -/
def uploadField : String := "codeFile"

/-- The logger of the service. -/
def logger : String := "api"

/-- The answer to a failed analysis. -/
def failureAnswer : Failure → Answer
  | .timeout limit => .error 504 (Failure.timeout limit).message
  | .workspace e => .error 500 e.message
  | f => .error 500 ("Analysis failed: " ++ f.message)

/-- What is logged of a failed analysis. -/
def failureLog (name : String) (f : Failure) : Log.Entry :=
  let reason := f.message
  match f with
  | .timeout _ => ⟨.error, logger, s!"⏰ Analysis timed out for \x27{name}\x27: {reason}"⟩
  | .workspace _ => ⟨.error, logger, s!"❌ Analysis failed for \x27{name}\x27: {reason}"⟩
  | _ => ⟨.error, logger, s!"❌ Unexpected analysis error for \x27{name}\x27: {reason}"⟩

/-- Runs an analysis on a file that was read, if it is admitted. -/
def analyzeSource (svc : Service) (c : Analysis.Circumstances) (name : String)
    (source : List UInt8) (t : FileTree) : Handled :=
  match Submission.check svc.settings (some (Content.ofText name)) source.length with
  | .error e =>
    let reason := e.message
    ⟨.error 400 reason, t, [⟨.info, logger, s!"Rejected upload \x27{name}\x27: {reason}"⟩], false⟩
  | .ok () =>
    let finished := (c.job (Content.ofText name) source).run svc.settings svc.workspaces t
    let log : List Log.Entry :=
      ⟨.info, logger, s!"📤 File uploaded: {name} ({source.length} bytes)"⟩ :: finished.log
    match finished.result with
    | .ok r => ⟨.page 200 (some r.toJson), finished.tree, log, true⟩
    | .error f => ⟨failureAnswer f, finished.tree, log ++ [failureLog name f], true⟩

/-- The detail of a text where a file should be. -/
def textDetail (content : List UInt8) : Json :=
  .array [.record [
    ("type", .text "value_error"), ("loc", .texts ["body", uploadField]),
    ("msg", .text "Value error, Expected UploadFile, received: <class \x27str\x27>"),
    ("input", .text (String.ofList (Text.Utf8.decodeLossy content))),
    ("ctx", .record [("error", .record [])])]]

/-- Runs an analysis on what stands in the field of uploads, if that is a file. An empty text counts
as nothing. -/
def analyze (svc : Service) (c : Analysis.Circumstances) (form : Form) (t : FileTree) : Handled :=
  match form.check with
  | .error e => (Answer.detail 400 (.text e.message)).only t
  | .ok () =>
    match form.value? uploadField with
    | none => (Answer.error 400 Submission.Rejection.noFile.message).only t
    | some (.text []) => (Answer.error 400 Submission.Rejection.noFile.message).only t
    | some (.text content) => (Answer.detail 422 (textDetail content)).only t
    | some (.file name content) =>
      match readUpload c.host svc.settings.uploadLimit content with
      | .error _ => Answer.broken.only t
      | .ok source => svc.analyzeSource c (carriedName name) source t

/-! ## Answering requests -/

/-- Finds the route of a request and follows it. -/
def dispatch (svc : Service) (c : Analysis.Circumstances) (now : String) (req : Request)
    (t : FileTree) : Handled :=
  let report (body : Json) : Handled := (Answer.page 200 (some body)).only t
  match route? svc.documented req.target.seenPath with
  | none => (Answer.detail 404 (.text "Not Found")).only t
  | some route =>
    if !route.allows (Text.upper req.method) then
      (Answer.detail 405 (.text "Method Not Allowed")).only t
    else
      match route with
      | .greeting => report (.record [("message", .text serviceName)])
      | .info => report svc.infoBody
      | .configuration => report (svc.configurationBody now)
      | .health => report (svc.healthBody now t)
      | .documentation => (Answer.page 200 none).only t
      | .schema => (Answer.page 200 none).only t
      | .analyze => svc.analyze c req.form t

/-- The response that an answer makes. Where the service breaks off or the body cannot be sent it is
a bare failure. A request for the head only gets no body. -/
def respond (svc : Service) (req : Request) : Answer → Response
  | .broken => ⟨500, none, none⟩
  | .page status body =>
    if (body.map (·.isSendable)).getD true then
      { status
        body := if Text.upper req.method = "HEAD" then none else body
        allowOrigin := Origin.allowed svc.origins req.origin }
    else ⟨500, none, none⟩

/-- Answers a request. -/
def handle (svc : Service) (c : Analysis.Circumstances) (now : String) (req : Request)
    (t : FileTree) : Response × Handled :=
  let handled := svc.dispatch c now req t
  (svc.respond req handled.answer, handled)

end Service

end Demotion
