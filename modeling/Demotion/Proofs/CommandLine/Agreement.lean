import Demotion.CommandLine.Run
import Demotion.Proofs.Analysis.Surroundings
import Demotion.Proofs.Log.Delivery
import Demotion.Proofs.Service.Sending
import Demotion.Service.Running

/-!
# The command and the service agree

A file can be given to the command or uploaded to the service. Both admit it by the same rules and run the same
analysis on it, although the service has written to its log by then and has read no more of the file than it had
to. So the exit status of the command tells the status of the response. They disagree only where the service
breaks off and the command does not fail.

* `start_eq_ok`: what has been done when the service has started.
* `analyze_refused`, `analyze_admitted`: what an upload comes to, told by the whole of its content.
* `run_told`: what a file that is given to the command comes to.
* `Agree`: the response tells the end of the command.
* `run_agrees`: **when the response tells the end of the command**, and where it does not.
* `run_disagrees`: a limit up to which nothing can be read breaks off the service alone.
-/

namespace Demotion

/-! ## Starting the service -/

theorem extends_prepare (ws : Workspaces) (t : FileTree) : t.Extends (ws.prepare t).1 := by
  have hmade := t.extends_makeDirectories ws.root
  unfold Workspaces.prepare
  split
  · exact .refl t
  · split
    · exact .refl t
    · split <;> rename_i h <;> rw [h] at hmade <;> exact hmade

namespace Service

/-- **What has been done when the service has started**: its log is set up, the directory of all workspaces is
made, and something is written to the log. -/
theorem start_eq_ok {s : Settings} {time : String} {t : FileTree} {running : Running}
    (h : start s time t = .ok running) :
    s.validate = .ok () ∧ running.service.settings = s ∧ ∃ opened prepared log,
      Log.setUp .initial s.logLevel s.logFile t = .ok (running.setup, opened) ∧
      (Workspaces.ofSettings s).prepare opened = (prepared, .ok running.service.workspaces) ∧
      running.tree = Log.deliver running.setup time log prepared := by
  unfold start create at h
  cases hvalid : s.validate with
  | error e => rw [hvalid] at h; cases h
  | ok u =>
    rw [hvalid] at h
    cases hsetup : Log.setUp .initial s.logLevel s.logFile t with
    | error e => rw [hsetup] at h; cases h
    | ok opened =>
      obtain ⟨setup, opened⟩ := opened
      rw [hsetup] at h
      rcases hprepare : (Workspaces.ofSettings s).prepare opened with ⟨prepared, failure | ws⟩
      · simp only [hprepare] at h
        cases h
      · simp only [hprepare] at h
        cases h
        exact ⟨rfl, rfl, opened, prepared, _, rfl, hprepare, rfl⟩

/-! ## Uploads -/

section

variable (svc : Service) (c : Analysis.Circumstances) (t : FileTree) {form : Form} {name : String}
  {content part : List UInt8} (hform : form.check = .ok ()) (hupload : form.Carries (some (name, content)))

include hform hupload

theorem analyze_refused (hread : readUpload c.host svc.settings.uploadLimit content = .ok part)
    {e : Submission.Rejection} (hcheck : Submission.check svc.settings (some name) content.length = .error e) :
    ∃ log, svc.analyze c form t = ⟨.error 400 e.message, t, log, false⟩ := by
  rw [analyze_read svc c t hform hupload hread]
  unfold analyzeSource
  rw [check_part hread, hcheck]
  exact ⟨_, rfl⟩

theorem analyze_admitted (hread : readUpload c.host svc.settings.uploadLimit content = .ok part)
    (hcheck : Submission.check svc.settings (some name) content.length = .ok ()) :
    (svc.analyze c form t).answer = answerOf (analysisOf svc c t name content).result := by
  rw [analyze_read svc c t hform hupload hread]
  have hpart : part = content := by
    obtain ⟨-, hwhole, -⟩ := readUpload_eq_ok hread
    exact hwhole fun hexceeds => check_eq_ok.1 hcheck (Or.inr (Or.inr hexceeds))
  subst hpart
  rcases analyzeSource_cases svc c t name part with ⟨hne, -⟩ | ⟨-, hanswer⟩
  · exact absurd hcheck hne
  · exact hanswer

end

end Service

/-! ## The file that is given to the command -/

namespace CommandLine

open Analysis (Circumstances Result)

/-- The name of a file in the working directory, if the file can be read, is the path to it. -/
theorem ofText_readable {t : FileTree} {name : Content} {content : List UInt8}
    (hworking : ∃ es, t.top.get? t.working = some (.directory es)) (hslash : .char '/' ∉ name)
    (hread : t.readFile (FilePath.ofText name) = .ok content) : FilePath.ofText name = ⟨.here, [name]⟩ := by
  have hself : FilePath.ofText name ≠ ⟨.here, []⟩ := by
    intro hpath
    obtain ⟨es, hes⟩ := hworking
    rw [hpath] at hread
    obtain ⟨place, n, hloc, hn, hcontent⟩ := FileTree.readFile_eq_ok.1 hread
    obtain rfl : t.working = place := Except.ok.inj hloc
    rw [hes] at hn
    cases hn
    cases hcontent
  refine ofText_of_not_mem hslash ?_ ?_
  · rintro rfl
    exact hself (by decide)
  · rintro rfl
    exact hself (by decide)

/-! ## The command -/

/-- The exit status of a command, also of one that breaks off. -/
def exitStatus : Except Crash Finished → Nat
  | .ok finished => finished.exit
  | .error _ => 1

section

variable {a : Arguments} {s : Settings} {setup : Log.Setup} {time : String} {c : Circumstances} {name : Content}
  {content : List UInt8} {t prepared : FileTree} {ws : Workspaces}

theorem runAlone_result {job : Analysis.Job}
    (hprepare : (Workspaces.ofSettings s).prepare t = (prepared, .ok ws)) :
    (job.runAlone s t).result = (job.run s ws prepared).result := by
  unfold Analysis.Job.runAlone
  simp only [hprepare]

/-- A failed analysis fails the command, whether the failure is expected or not. -/
theorem analyze_error {f : Failure} (h : ((c.job name content).runAlone s t).result = .error f) :
    exitStatus (analyze a s setup time c name content t) = 1 := by
  unfold analyze
  simp only [h]
  split <;> rfl

/-- The console of every host prints a text. -/
theorem unprintable?_of_isTextContent {c : Content} (h : Json.isTextContent c = true) (host : Host) :
    host.unprintable? c = none :=
  Content.refused?_eq_none.2 fun n hn => absurd hn (Json.isTextContent_eq_true.1 h n)

/-- What is printed of a result that can be sent are texts. -/
theorem resultTexts_sendable (a : Arguments) {r : Result} (hsend : r.toJson.isSendable = true) :
    ∃ texts, resultTexts a r = .ok texts ∧ (∀ text ∈ texts, Json.isTextContent text = true) ∧
      (a.json = true → texts = [r.toJson.render]) := by
  have htexts : r.toJson.hasTexts = true := by
    rw [Json.isSendable_eq, Bool.and_eq_true] at hsend
    exact hsend.2
  unfold resultTexts
  cases a.json with
  | true =>
    simp only [if_true, Json.isWritable_of_isSendable hsend]
    refine ⟨_, rfl, fun text hmem => ?_, fun _ => rfl⟩
    rw [List.mem_singleton.1 hmem, Json.isTextContent_render, htexts]
  | false =>
    refine ⟨_, rfl, fun text hmem => ?_, nofun⟩
    -- but for the submitted name, the summary is made of texts
    have hname : Json.isTextContent r.submittedName = true := by
      rw [Analysis.hasTexts_toJson, Bool.and_eq_true] at htexts
      exact htexts.1
    rcases List.mem_append.1 hmem with hhead | hdetail
    · simp only [List.mem_cons, List.not_mem_nil, or_false] at hhead
      rcases hhead with rfl | rfl | rfl <;> simp [hname]
    · obtain ⟨line, -, rfl⟩ := List.mem_map.1 hdetail
      exact Json.isTextContent_ofText line

theorem resultText_sendable (host : Host) (a : Arguments) {r : Result} (hsend : r.toJson.isSendable = true) :
    ∃ text, resultText host a r = .ok text ∧ (a.json = true → text = r.toJson.render ++ [.char '\n']) := by
  obtain ⟨texts, hresult, htexts, hjson⟩ := resultTexts_sendable a hsend
  have hprinted : texts.findSome? host.unprintable? = none :=
    List.findSome?_eq_none_iff.2 fun text hmem => unprintable?_of_isTextContent (htexts text hmem) host
  unfold resultText
  simp only [hresult, hprinted]
  refine ⟨_, rfl, fun hasked => ?_⟩
  rw [hjson hasked, List.flatMap_singleton]

/-- A result that can be sent is printed, and its success tells the exit status. -/
theorem analyze_ok (a : Arguments) (setup : Log.Setup) (time : String) {r : Result}
    (h : ((c.job name content).runAlone s t).result = .ok r) (hsend : r.toJson.isSendable = true) :
    ∃ finished, analyze a s setup time c name content t = .ok finished ∧
      finished.exit = (if r.success then 0 else 1) ∧
      (a.json = true → finished.output.getLast? = some (.text (r.toJson.render ++ [.char '\n']))) := by
  obtain ⟨text, htext, hjson⟩ := resultText_sendable c.host a hsend
  unfold analyze
  simp only [h, htext]
  refine ⟨_, rfl, rfl, fun hasked => ?_⟩
  rw [← hjson hasked]
  exact List.getLast?_concat

end

/-- A file in the working directory, given to the command and uploaded to a service that was started with the same
settings and the same files. -/
structure Submitted (t : FileTree) (arguments : List String) (env : Environment) (a : Arguments)
    (content : List UInt8) (running : Service.Running) (req : Service.Request) : Prop where
  working : ∃ es, t.top.get? t.working = some (.directory es)
  arguments : parse arguments = .ok a
  settings : ∃ loaded s time, environment env t = .ok loaded ∧ Settings.ofEnvironment loaded = .ok s ∧
    Service.start (a.apply s) time t = .ok running
  name : '/' ∉ a.source.toList ∧ '\x00' ∉ a.source.toList
  readable : t.readFile (FilePath.ofText a.source) = .ok content
  path : req.target.seenPath = "/analyze".toList ∨ req.target.seenPath = "/api/analyze".toList
  method : Text.upper req.method = "POST"
  form : req.form.check = .ok ()
  upload : req.form.Carries (some (a.source, content))

/-- The response to an upload tells the end of a command. Both refuse the file, with the same message and without
having made a workspace, or neither does; success and failure are told apart; and what the command prints as JSON
is the body of the response. -/
structure Agree (running : Service.Running) (answered : Service.Running × Service.Response) (a : Arguments)
    (t : FileTree) (ended : Except Crash Finished) : Prop where
  refused : answered.2.status = 400 ↔ exitStatus ended = 2
  message : answered.2.status = 400 → ∃ message finished, answered.2.member? "error" = some (.text message) ∧
    ended = .ok finished ∧ finished.output = [.text (Content.ofText ("❌ " ++ message ++ "\n"))]
  untouched : answered.2.status = 400 → running.tree.SameKinds answered.1.tree ∧
    ∃ finished, ended = .ok finished ∧ Log.setUp .initial running.service.settings.logLevel
      running.service.settings.logFile t = .ok (running.setup, finished.tree)
  succeeded : answered.2.status = 200 ∧ answered.2.member? "success" = some (.bool true) ↔ exitStatus ended = 0
  failed : (answered.2.status = 200 ∧ answered.2.member? "success" = some (.bool false)) ∨
    answered.2.status = 500 ∨ answered.2.status = 504 ↔ exitStatus ended = 1
  printed : answered.2.status = 200 → a.json = true → ∃ body finished, answered.2.body = some body ∧
    ended = .ok finished ∧ finished.output.getLast? = some (.text (body.render ++ [.char '\n']))

/-- A failed analysis and a service that breaks off are told by the exit status alike. -/
theorem agree_of_failed {running : Service.Running} {answered : Service.Running × Service.Response}
    {a : Arguments} {t : FileTree} {ended : Except Crash Finished}
    (hstatus : answered.2.status = 500 ∨ answered.2.status = 504) (hexit : exitStatus ended = 1) :
    Agree running answered a t ended := by
  have h400 : answered.2.status ≠ 400 := by omega
  have h200 : answered.2.status ≠ 200 := by omega
  refine ⟨?_, fun h => absurd h h400, fun h => absurd h h400, ?_, ?_, fun h => absurd h h200⟩
  · rw [hexit]
    exact ⟨fun h => absurd h h400, fun h => (by cases h)⟩
  · rw [hexit]
    exact ⟨fun h => absurd h.1 h200, fun h => (by cases h)⟩
  · exact ⟨fun _ => hexit, fun _ => Or.inr hstatus⟩

/-! ## The same file at both -/

open Service (Running Request readUpload answerOf analysisOf Refused Breaks)

section

variable {t opened : FileTree} {arguments : List String} {env : Environment} {a : Arguments}
  {content : List UInt8} {running : Running} {req : Request} (h : Submitted t arguments env a content running req)
  (c : Circumstances) (now later : String)

include h

theorem Submitted.started :
    running.service.settings.validate = .ok () ∧ ∃ opened prepared time log,
      Log.setUp .initial running.service.settings.logLevel running.service.settings.logFile t =
        .ok (running.setup, opened) ∧
      (Workspaces.ofSettings running.service.settings).prepare opened =
        (prepared, .ok running.service.workspaces) ∧
      running.tree = Log.deliver running.setup time log prepared := by
  obtain ⟨-, s, time, -, -, hstart⟩ := h.settings
  obtain ⟨hvalid, hsettings, opened, prepared, log, hsetup, hprepare, htree⟩ := Service.start_eq_ok hstart
  rw [hsettings]
  exact ⟨hvalid, opened, prepared, time, log, hsetup, hprepare, htree⟩

/-- **What a file that is given to the command comes to**: it is refused, or an analysis is run on it. -/
theorem run_told
    (hsetup : Log.setUp .initial running.service.settings.logLevel running.service.settings.logFile t =
      .ok (running.setup, opened)) :
    run arguments env later c t =
      match Submission.check running.service.settings (some a.source) content.length with
      | .error e => .ok (oneLine 2 ("❌ " ++ e.message) opened)
      | .ok () => analyze a running.service.settings running.setup later c a.source content opened := by
  obtain ⟨hvalid, -⟩ := h.started
  obtain ⟨loaded, s, time, henv, hsettings, hstart⟩ := h.settings
  obtain ⟨-, hsame, -⟩ := Service.start_eq_ok hstart
  -- the source can still be read after the log was set up, and its name is the path to it
  have hread := (Log.setUp_eq_ok hsetup).1.readFile h.readable
  have hslash : .char '/' ∉ Content.ofText a.source := fun hmem => h.name.1 (Content.char_mem_ofText.1 hmem)
  have hpath := ofText_readable h.working hslash h.readable
  have htaken : Failure.ofPath? (FilePath.ofText a.source) = none := by
    rw [ofPath?_eq_none, hpath]
    intro name hname
    rw [List.mem_singleton.1 hname]
    exact Content.isTaken_ofText h.name.2
  rw [hpath] at hread htaken
  rw [hsame] at hsetup hvalid ⊢
  unfold run
  simp only [henv, h.arguments, hsettings, hsetup]
  unfold execute
  simp only [hvalid, hpath, htaken, hread]
  rfl

/-- The service and the command run the same analysis, although the service has written to its log by then. -/
theorem Submitted.sameAnalysis : ∃ opened,
    Log.setUp .initial running.service.settings.logLevel running.service.settings.logFile t =
        .ok (running.setup, opened) ∧
      running.setup.Ready running.tree ∧ ∀ c : Circumstances,
        ((c.job a.source content).runAlone running.service.settings opened).result =
          (analysisOf running.service c running.tree a.source content).result := by
  obtain ⟨-, opened, prepared, time, log, hsetup, hprepare, htree⟩ := h.started
  have hextends := extends_prepare (Workspaces.ofSettings running.service.settings) opened
  rw [hprepare] at hextends
  have hready : running.setup.Ready prepared := (Log.setUp_eq_ok hsetup).2.of_extends hextends
  refine ⟨opened, hsetup, htree ▸ hready.deliver time log, fun c => ?_⟩
  -- the file of the log was there, so that writing to it made nothing new
  rw [runAlone_result hprepare, htree]
  exact Analysis.run_congr (Log.sameKinds_deliver time log hready) _ _ _

theorem answer_response : (running.answer c now req).2 =
    running.service.respond req (running.service.analyze c req.form running.tree).answer := by
  unfold Running.answer
  rw [Service.handle_analyze _ _ _ _ h.path h.method]

theorem answer_tree : (running.answer c now req).1.tree =
    Log.deliver running.setup now (running.service.analyze c req.form running.tree).log
      (running.service.analyze c req.form running.tree).tree := by
  unfold Running.answer
  rw [Service.handle_analyze _ _ _ _ h.path h.method]
  rfl

/-! ## Agreement -/

theorem agree_refused {part : List UInt8} {e : Submission.Rejection}
    (hread : readUpload c.host running.service.settings.uploadLimit content = .ok part)
    (hcheck : Submission.check running.service.settings (some a.source) content.length = .error e) :
    Agree running (running.answer c now req) a t (run arguments env later c t) := by
  obtain ⟨opened, hsetup, hready, -⟩ := h.sameAnalysis
  obtain ⟨log, hanalyze⟩ := Service.analyze_refused running.service c running.tree h.form h.upload hread hcheck
  have hresponse := answer_response h c now
  have htree := answer_tree h c now
  rw [hanalyze] at hresponse htree
  have hrun := run_told h c later hsetup
  rw [hcheck] at hrun
  obtain ⟨hstatus, -, hmessage⟩ := Service.respond_error running.service h.method 400 e.message
  rw [← hresponse] at hstatus hmessage
  refine ⟨?_, fun _ => ?_, fun _ => ?_, ?_, ?_, fun h200 => ?_⟩
  · rw [hrun, hstatus]
    exact ⟨fun _ => rfl, fun _ => rfl⟩
  · exact ⟨e.message, _, hmessage, hrun, rfl⟩
  · rw [htree]
    exact ⟨Log.sameKinds_deliver now log hready, _, hrun, hsetup⟩
  · rw [hrun, hstatus]
    exact ⟨fun h => absurd h.1 (by decide), fun h => (by cases h)⟩
  · rw [hrun, hstatus]
    exact ⟨fun h => absurd h (by simp), fun h => (by cases h)⟩
  · rw [hstatus] at h200
    cases h200

theorem agree_result {part : List UInt8} {r : Result}
    (hread : readUpload c.host running.service.settings.uploadLimit content = .ok part)
    (hcheck : Submission.check running.service.settings (some a.source) content.length = .ok ())
    (hr : (analysisOf running.service c running.tree a.source content).result = .ok r)
    (hsend : r.toJson.isSendable = true) :
    Agree running (running.answer c now req) a t (run arguments env later c t) := by
  obtain ⟨opened, hsetup, -, hsame⟩ := h.sameAnalysis
  have hanswer := Service.analyze_admitted running.service c running.tree h.form h.upload hread hcheck
  have hresponse := answer_response h c now
  rw [hanswer, hr] at hresponse
  obtain ⟨hstatus, hsuccess, -⟩ := Service.respond_result running.service h.method hsend
  have hbody : (running.answer c now req).2.body = some r.toJson := by
    rw [hresponse, answerOf, Service.respond_page running.service h.method hsend]
  rw [← hresponse] at hstatus hsuccess
  have hrun := run_told h c later hsetup
  rw [hcheck] at hrun
  obtain ⟨finished, hanalyze, hexit, hprinted⟩ := analyze_ok a running.setup later ((hsame c).trans hr) hsend
  simp only [hanalyze] at hrun
  have hended : exitStatus (run arguments env later c t) = if r.success then 0 else 1 := by
    rw [hrun]
    exact hexit
  refine ⟨?_, fun h400 => ?_, fun h400 => ?_, ?_, ?_, fun _ hjson => ⟨_, finished, hbody, hrun, hprinted hjson⟩⟩
  · rw [hended, hstatus]
    cases r.success <;> decide
  · rw [hstatus] at h400
    cases h400
  · rw [hstatus] at h400
    cases h400
  · rw [hended, hstatus, hsuccess]
    cases r.success <;> simp
  · rw [hended, hstatus, hsuccess]
    cases r.success <;> simp

theorem agree_failure {part : List UInt8} {f : Failure}
    (hread : readUpload c.host running.service.settings.uploadLimit content = .ok part)
    (hcheck : Submission.check running.service.settings (some a.source) content.length = .ok ())
    (hf : (analysisOf running.service c running.tree a.source content).result = .error f) :
    Agree running (running.answer c now req) a t (run arguments env later c t) := by
  obtain ⟨opened, hsetup, -, hsame⟩ := h.sameAnalysis
  have hanswer := Service.analyze_admitted running.service c running.tree h.form h.upload hread hcheck
  have hresponse := answer_response h c now
  obtain ⟨message, hmessage⟩ := Service.failureAnswer_eq f
  rw [hanswer, hf, answerOf, hmessage] at hresponse
  obtain ⟨hstatus, -, -⟩ := Service.respond_error running.service h.method (Service.statusOf (.error f)) message
  have hrun := run_told h c later hsetup
  rw [hcheck] at hrun
  refine agree_of_failed ?_ ?_
  · rw [hresponse, hstatus]
    cases f <;> simp [Service.statusOf]
  · rw [hrun]
    exact analyze_error ((hsame c).trans hf)

/-- **Where the service does not break off, the response tells the end of the command.** -/
theorem agree_of_not_breaks (hbreaks : ¬Breaks running.service c running.tree (some (a.source, content))) :
    Agree running (running.answer c now req) a t (run arguments env later c t) := by
  -- in the order of the service: the upload is read, admitted and analysed
  cases hread : readUpload c.host running.service.settings.uploadLimit content with
  | error e => exact absurd (.unreadable hread) hbreaks
  | ok part =>
    cases hcheck : Submission.check running.service.settings (some a.source) content.length with
    | error e => exact agree_refused h c now later hread hcheck
    | ok u =>
      cases hresult : (analysisOf running.service c running.tree a.source content).result with
      | error f => exact agree_failure h c now later hread hcheck hresult
      | ok r =>
        have hadmitted : ¬Refused running.service.settings (some (a.source, content)) :=
          Service.check_eq_ok.1 hcheck
        cases hsend : r.toJson.isSendable with
        | true => exact agree_result h c now later hread hcheck hresult hsend
        | false => exact absurd (.unsendable hadmitted hresult hsend) hbreaks

theorem answer_of_breaks (hbreaks : Breaks running.service c running.tree (some (a.source, content))) :
    (running.answer c now req).2 = ⟨500, none, none⟩ := by
  rw [answer_response h]
  rcases Service.analyze_lawful running.service c running.tree h.method h.form h.upload with
    ⟨-, hbare⟩ | ⟨hnot, -⟩
  · exact hbare
  · exact absurd hbreaks hnot

omit h in
/-- Where the numbers of the result have a standard form, the service breaks off for one of two reasons. -/
theorem breaks_iff (hnumbers : ∀ r, (analysisOf running.service c running.tree a.source content).result = .ok r →
      r.toJson.hasPlainNumbers = true) :
    Breaks running.service c running.tree (some (a.source, content)) ↔
      (∃ e, readUpload c.host running.service.settings.uploadLimit content = .error e) ∨
        ¬Refused running.service.settings (some (a.source, content)) ∧
          ∃ r, (analysisOf running.service c running.tree a.source content).result = .ok r ∧
            ∃ record ∈ r.jsonAnalysis.getD [], ∃ text ∈ record.texts, Json.isTextContent text = false := by
  have hunsendable : ∀ r, (analysisOf running.service c running.tree a.source content).result = .ok r →
      (r.toJson.isSendable = false ↔
        ∃ record ∈ r.jsonAnalysis.getD [], ∃ text ∈ record.texts, Json.isTextContent text = false) := by
    intro r hr
    have hname : Json.isTextContent r.submittedName = true := by
      rw [(Service.submitted_of_run hr).2]
      exact Json.isTextContent_ofText a.source
    rw [Analysis.isSendable_toJson, hnumbers r hr, hname, Bool.true_and, Bool.true_and]
    simp only [List.all_eq_false, Bool.not_eq_true]
  constructor
  · intro h
    cases h with
    | unreadable hread => exact Or.inl ⟨_, hread⟩
    | unsendable hadmitted hr hsend => exact Or.inr ⟨hadmitted, _, hr, (hunsendable _ hr).1 hsend⟩
  · rintro (⟨e, hread⟩ | ⟨hadmitted, r, hr, hhalf⟩)
    · exact .unreadable hread
    · exact .unsendable hadmitted hr ((hunsendable r hr).2 hhalf)

/-- **When the response tells the end of the command.** It does so exactly if the service does not break off or
the command fails as well, and a service that breaks off gives a bare failure. Where the numbers of the result
have a standard form, the service breaks off only at a limit up to which the upload cannot be read, and at a
record with half of a surrogate pair. -/
theorem run_agrees :
    (Agree running (running.answer c now req) a t (run arguments env later c t) ↔
        ¬Breaks running.service c running.tree (some (a.source, content)) ∨
          exitStatus (run arguments env later c t) = 1) ∧
      (Breaks running.service c running.tree (some (a.source, content)) →
        (running.answer c now req).2 = ⟨500, none, none⟩) ∧
      ((∀ r, (analysisOf running.service c running.tree a.source content).result = .ok r →
          r.toJson.hasPlainNumbers = true) →
        (Breaks running.service c running.tree (some (a.source, content)) ↔
          (∃ e, readUpload c.host running.service.settings.uploadLimit content = .error e) ∨
            ¬Refused running.service.settings (some (a.source, content)) ∧
              ∃ r, (analysisOf running.service c running.tree a.source content).result = .ok r ∧
                ∃ record ∈ r.jsonAnalysis.getD [], ∃ text ∈ record.texts, Json.isTextContent text = false)) := by
  refine ⟨⟨fun hagree => ?_, ?_⟩, answer_of_breaks h c now, breaks_iff c⟩
  · -- a bare failure is told by no other exit status
    by_cases hbreaks : Breaks running.service c running.tree (some (a.source, content))
    · refine Or.inr (hagree.failed.1 (Or.inr (Or.inl ?_)))
      rw [answer_of_breaks h c now hbreaks]
    · exact Or.inl hbreaks
  · rintro (hbreaks | hexit)
    · exact agree_of_not_breaks h c now later hbreaks
    · by_cases hbreaks : Breaks running.service c running.tree (some (a.source, content))
      · refine agree_of_failed (Or.inl ?_) hexit
        rw [answer_of_breaks h c now hbreaks]
      · exact agree_of_not_breaks h c now later hbreaks

end

/-! ## A file at hand -/

/-- A tree with nothing but a source. -/
def sourceTree : FileTree := ⟨.directory [("a.c", .file [0x78])], []⟩

/-- The arguments that ask for its result as JSON. -/
def sourceArguments : Arguments := ⟨"a.c", true, none, false⟩

/-- An environment with a log file, the directory of all workspaces and a limit of bytes. -/
def loggedEnvironment (limit : String) : Environment := fun name =>
  if name = EnvironmentFile.switchName then some "1"
  else if name = "WORKSPACE_ROOT" then some "workspaces"
  else if name = "LOG_FILE" then some "a.log"
  else if name = "MAX_UPLOAD_BYTES" then some limit
  else none

/-- The service that is started in this environment with these files. -/
def started? (limit : String) : Option Running :=
  (Settings.ofEnvironment (loggedEnvironment limit)).toOption.bind fun s =>
    (Service.start (sourceArguments.apply s) "" sourceTree).toOption

theorem submitted_source {limit : String} {running : Running} (h : started? limit = some running) :
    Submitted sourceTree ["--json", "a.c"] (loggedEnvironment limit) sourceArguments [0x78] running
      Service.uploadRequest := by
  unfold started? at h
  obtain ⟨s, hs, hstart⟩ := Option.bind_eq_some_iff.1 h
  have hoff : EnvironmentFile.isSwitchedOff (loggedEnvironment limit) = true := by
    have hswitch : loggedEnvironment limit EnvironmentFile.switchName = some "1" := if_pos rfl
    unfold EnvironmentFile.isSwitchedOff
    rw [hswitch]
    decide +kernel
  refine {
    working := ⟨_, rfl⟩
    arguments := by decide +kernel
    settings := ⟨loggedEnvironment limit, s, "", ?_, ?_, ?_⟩
    name := by decide
    readable := by decide
    path := Or.inl (by decide)
    method := by decide
    form := by decide
    upload := Service.carries_uploadRequest }
  · unfold environment
    rw [if_pos hoff]
  · cases hsettings : Settings.ofEnvironment (loggedEnvironment limit) with
    | error e => rw [hsettings] at hs; cases hs
    | ok s' => rw [hsettings] at hs; cases hs; rfl
  · cases hrunning : Service.start (sourceArguments.apply s) "" sourceTree with
    | error e => rw [hrunning] at hstart; cases hstart
    | ok running' => rw [hrunning] at hstart; cases hstart; rfl

/-- A result with diagnostics is told by both. -/
theorem run_agrees_garbled : ∃ running,
    Submitted sourceTree ["--json", "a.c"] (loggedEnvironment "1") sourceArguments [0x78] running
        Service.uploadRequest ∧
      (running.answer Service.garbled "" Service.uploadRequest).2.status = 200 ∧
      Agree running (running.answer Service.garbled "" Service.uploadRequest) sourceArguments sourceTree
        (run ["--json", "a.c"] (loggedEnvironment "1") "" Service.garbled sourceTree) := by
  have hstatus : (started? "1").map (fun running =>
      (running.answer Service.garbled "" Service.uploadRequest).2.status) = some 200 := by decide +kernel
  obtain ⟨running, hstarted, h200⟩ := Option.map_eq_some_iff.1 hstatus
  have hsubmitted := submitted_source hstarted
  obtain ⟨hagree, hbare, -⟩ := run_agrees hsubmitted Service.garbled "" ""
  refine ⟨running, hsubmitted, h200, hagree.2 (Or.inl fun hbreaks => ?_)⟩
  rw [hbare hbreaks] at h200
  cases h200

/-- **The response does not always tell the end of the command**: the service breaks off at a limit of bytes that
no upload can be read up to, where the command succeeds. -/
theorem run_disagrees :
    ¬∀ (t : FileTree) (arguments : List String) (env : Environment) (a : Arguments) (content : List UInt8)
      (running : Running) (req : Request) (c : Circumstances) (now later : String),
      Submitted t arguments env a content running req →
      (∀ r, (analysisOf running.service c running.tree a.source content).result = .ok r →
        r.toJson.hasPlainNumbers = true) →
      Agree running (running.answer c now req) a t (run arguments env later c t) := by
  intro h
  have hstatus : (started? "9223372036854775807").map (fun running =>
      ((running.answer Service.garbled "" Service.uploadRequest).2.status,
        (analysisOf running.service Service.garbled running.tree "a.c" [0x78]).result.toOption.all
          (·.toJson.hasPlainNumbers))) = some (500, true) := by decide +kernel
  have hexit : exitStatus (run ["--json", "a.c"] (loggedEnvironment "9223372036854775807") "" Service.garbled
      sourceTree) = 0 := by decide +kernel
  obtain ⟨running, hstarted, hboth⟩ := Option.map_eq_some_iff.1 hstatus
  obtain ⟨h500, hnumbers⟩ := Prod.mk.inj hboth
  have hagree := h _ _ _ _ _ running _ Service.garbled "" "" (submitted_source hstarted) fun r hr => by
    change (analysisOf running.service Service.garbled running.tree "a.c" [0x78]).result = .ok r at hr
    rw [hr] at hnumbers
    exact hnumbers
  have hone := hagree.failed.1 (Or.inr (Or.inl h500))
  rw [hexit] at hone
  cases hone

end CommandLine

end Demotion
