import Demotion.Proofs.Analysis.Outcome
import Demotion.Proofs.Json.Writing
import Demotion.Service.Basic

/-!
# The answer to an upload

An upload is refused by its name and its size, and an analysis is run on every other one. The status of the
answer tells which of these it was and how the analysis ended. Two things keep the service from such an answer: a
limit up to which no upload can be read, and a result that cannot be sent. Then the response is a bare failure.

* `readUpload_eq_ok`: the part of an upload that is read shows whether there is too much, and is all of it if not.
* `analyze_cases`: everything that an upload can come to.
* `Lawful`: an answer whose status tells what the upload came to.
* `handle_lawful`: **an answer is lawful unless the service breaks off**, and then the response is bare.
* `handle_unsendable`: the records of a float map can keep a result from being sent.
-/

namespace Demotion.Service

open Analysis (Circumstances Result)

/-! ## What is refused -/

/-- The upload that a form carries: a file by its name, as the service takes it, and its content. -/
def Form.Carries (form : Form) : Option (String × List UInt8) → Prop
  | none => form.value? uploadField = none
  | some (name, content) =>
    ∃ sent, form.value? uploadField = some (.file sent content) ∧ carriedName sent = name

/-- The uploads that are refused: none at all, and one by its name or by the size of the whole content. -/
def Refused (s : Settings) : Option (String × List UInt8) → Prop
  | none => True
  | some (name, content) =>
    name = "" ∨ Submission.extension name ∉ (Submission.allowed s).map Content.ofText ∨
      s.uploadLimit < content.length

theorem check_eq_ok {s : Settings} {name : String} {size : Int} :
    Submission.check s (some name) size = .ok () ↔
      ¬(name = "" ∨ Submission.extension name ∉ (Submission.allowed s).map Content.ofText ∨
        s.uploadLimit < size) := by
  have hempty : Content.ofText name = [] ↔ name = "" := Content.ofText_injective.eq_iff' rfl
  unfold Submission.check
  simp only [hempty]
  by_cases hname : name = ""
  · simp [hname]
  · by_cases hext : Submission.extension name ∈ (Submission.allowed s).map Content.ofText
    · by_cases hsize : s.uploadLimit < size <;> simp only [hname, hext, hsize] <;> simp
    · simp only [hname, hext]
      simp

/-- **One byte more than the limit is enough**: what is read of an upload exceeds the limit exactly if the whole
of it does, and is the whole of it if not. -/
theorem readUpload_eq_ok {host : Host} {limit : Int} {content part : List UInt8}
    (h : readUpload host limit content = .ok part) :
    (limit < part.length ↔ limit < content.length) ∧ (¬limit < content.length → part = content) ∧
      (0 ≤ limit → (part.length : Int) ≤ limit + 1) := by
  unfold readUpload at h
  cases hcheck : checkSize host (content.length ≤ maxInMemory) (limit + 1) with
  | error e => rw [hcheck] at h; cases h
  | ok u =>
    rw [hcheck] at h
    by_cases hneg : limit + 1 < 0
    · -- a negative number reads to the end, and every upload exceeds such a limit
      rw [if_pos hneg] at h
      cases h
      exact ⟨Iff.rfl, fun _ => rfl, fun hlimit => by omega⟩
    · rw [if_neg hneg] at h
      cases h
      refine ⟨?_, ?_, ?_⟩
      · rw [List.length_take]
        omega
      · intro hfits
        exact List.take_of_length_le (by omega)
      · intro _
        rw [List.length_take]
        omega

/-- What is read of an upload is admitted exactly if the whole of it is, and refused for the same reason. -/
theorem check_part {host : Host} {s : Settings} {content part : List UInt8}
    (hread : readUpload host s.uploadLimit content = .ok part) (name : Content) :
    Submission.check s (some name) part.length = Submission.check s (some name) content.length := by
  obtain ⟨hexceeds, -, -⟩ := readUpload_eq_ok hread
  unfold Submission.check
  simp only [hexceeds]

/-! ## What an upload comes to -/

/-- The answer that an analysis makes. -/
def answerOf : Except Failure Result → Answer
  | .ok r => .page 200 (some r.toJson)
  | .error f => failureAnswer f

section

variable (svc : Service) (c : Circumstances) (t : FileTree)

/-- The analysis of an upload. -/
def analysisOf (name : String) (content : List UInt8) : Analysis.Finished :=
  (c.job name content).run svc.settings svc.workspaces t

theorem analyzeSource_cases (name : String) (source : List UInt8) :
    (Submission.check svc.settings (some name) source.length ≠ .ok () ∧
        ∃ message log, svc.analyzeSource c name source t = ⟨.error 400 message, t, log, false⟩) ∨
      Submission.check svc.settings (some name) source.length = .ok () ∧
        (svc.analyzeSource c name source t).answer = answerOf (analysisOf svc c t name source).result := by
  unfold analyzeSource analysisOf
  cases hcheck : Submission.check svc.settings (some name) source.length with
  | error e => exact Or.inl ⟨fun h => (by cases h), _, _, rfl⟩
  | ok u =>
    refine Or.inr ⟨rfl, ?_⟩
    cases hrun : ((c.job name source).run svc.settings svc.workspaces t).result with
    | ok r => simp only [hrun]; rfl
    | error f => simp only [hrun]; rfl

variable {form : Form} {upload : Option (String × List UInt8)}

theorem analyze_read {name : String} {content part : List UInt8} (hform : form.check = .ok ())
    (hupload : form.Carries (some (name, content)))
    (hread : readUpload c.host svc.settings.uploadLimit content = .ok part) :
    svc.analyze c form t = svc.analyzeSource c name part t := by
  obtain ⟨sent, hvalue, hname⟩ := hupload
  unfold analyze
  simp only [hform, hvalue, hread, hname]

/-- **Everything that an upload can come to**: it cannot be read, it is refused and nothing is done, or it is
analysed as a whole. -/
theorem analyze_cases (hform : form.check = .ok ()) (hupload : form.Carries upload) :
    (∃ name content e, upload = some (name, content) ∧
        readUpload c.host svc.settings.uploadLimit content = .error e ∧
        svc.analyze c form t = Answer.broken.only t) ∨
      (Refused svc.settings upload ∧
        (∀ name content, upload = some (name, content) →
          ∃ part, readUpload c.host svc.settings.uploadLimit content = .ok part) ∧
        ∃ message log, svc.analyze c form t = ⟨.error 400 message, t, log, false⟩) ∨
      ∃ name content part, upload = some (name, content) ∧
        readUpload c.host svc.settings.uploadLimit content = .ok part ∧
        ¬Refused svc.settings upload ∧
        (svc.analyze c form t).answer = answerOf (analysisOf svc c t name content).result := by
  rcases upload with _ | ⟨name, content⟩
  · refine Or.inr (Or.inl ⟨trivial, fun _ _ h => (by cases h), Submission.Rejection.noFile.message, [], ?_⟩)
    have hnone : form.value? uploadField = none := hupload
    unfold analyze
    rw [hform, hnone]
    rfl
  · -- the upload is read before its name is looked at
    cases hread : readUpload c.host svc.settings.uploadLimit content with
    | error e =>
      refine Or.inl ⟨name, content, e, rfl, hread, ?_⟩
      obtain ⟨sent, hvalue, -⟩ := hupload
      unfold analyze
      simp only [hform, hvalue, hread]
    | ok part =>
      rw [analyze_read svc c t hform hupload hread]
      refine Or.inr ?_
      rcases analyzeSource_cases svc c t name part with ⟨hcheck, message, log, hanswer⟩ | ⟨hcheck, hanswer⟩
      · refine Or.inl ⟨?_, fun _ _ h => (by cases h; exact ⟨part, hread⟩), message, log, hanswer⟩
        rw [check_part hread, ne_eq, check_eq_ok, not_not] at hcheck
        exact hcheck
      · rw [check_part hread, check_eq_ok] at hcheck
        have hpart : part = content := (readUpload_eq_ok hread).2.1 fun h => hcheck (Or.inr (Or.inr h))
        refine Or.inr ⟨name, content, part, rfl, hread, hcheck, ?_⟩
        rw [hanswer, hpart]

end

/-! ## Responses -/

/-- The member of a name in the body of a response. -/
def Response.member? (response : Response) (name : String) : Option Json :=
  match response.body with
  | some (.object members) => Json.lookup members name
  | _ => none

section

variable (svc : Service) {req : Request} (hmethod : Text.upper req.method = "POST")

include hmethod

theorem respond_page {status : Nat} {body : Json} (h : body.isSendable = true) :
    svc.respond req (.page status (some body)) = ⟨status, some body, Origin.allowed svc.origins req.origin⟩ := by
  have hhead : Text.upper req.method ≠ "HEAD" := by rw [hmethod]; decide
  unfold respond
  simp only [Option.map_some, Option.getD_some, h, if_true, if_neg hhead]

/-- An error can always be sent. -/
theorem respond_error (status : Nat) (message : String) :
    (svc.respond req (.error status message)).status = status ∧
      (svc.respond req (.error status message)).member? "success" = some (.bool false) ∧
      (svc.respond req (.error status message)).member? "error" = some (.text message) := by
  have hsend : (Json.record [("success", .bool false), ("error", .text message)]).isSendable = true := by
    simp [Json.isSendable, Json.record, Json.text, Json.checkAll, Json.checkMembers]
  rw [Answer.error, respond_page svc hmethod hsend]
  exact ⟨rfl, Json.lookup_record _ _, Json.lookup_record _ _⟩

/-- A result that can be sent is. -/
theorem respond_result {r : Result} (h : r.toJson.isSendable = true) :
    (svc.respond req (answerOf (.ok r))).status = 200 ∧
      (svc.respond req (answerOf (.ok r))).member? "success" = some (.bool r.success) ∧
      (svc.respond req (answerOf (.ok r))).member? "originalCode" = some (.text r.sourceCode) := by
  rw [answerOf, respond_page svc hmethod h]
  refine ⟨rfl, (Json.lookup_record _ _).trans ?_, (Json.lookup_record _ _).trans ?_⟩
  · cases r.error <;> rfl
  · cases r.error <;> rfl

end

/-! ## Lawful answers -/

section

variable (svc : Service) (c : Circumstances) (t : FileTree)

/-- An answer whose status tells what the upload came to. Its body is an object that says whether the analysis was
a success. It is refused exactly if it should be, and then the files are as before; otherwise the status tells how
the analysis of the whole upload ended. -/
structure Lawful (upload : Option (String × List UInt8)) (response : Response) (handled : Handled) : Prop where
  status : response.status ∈ [200, 400, 500, 504]
  success : ∃ b, response.member? "success" = some (.bool b)
  refused : response.status = 400 ↔ Refused svc.settings upload
  untouched : Refused svc.settings upload → handled.tree = t
  timeout : ∀ name content, upload = some (name, content) → ¬Refused svc.settings upload →
    (response.status = 504 ↔ ∃ limit, (analysisOf svc c t name content).result = .error (.timeout limit))
  failed : ∀ name content, upload = some (name, content) → ¬Refused svc.settings upload →
    (response.status = 500 ↔
      ∃ f, (analysisOf svc c t name content).result = .error f ∧ ∀ limit, f ≠ .timeout limit)
  returned : ∀ name content, upload = some (name, content) → ¬Refused svc.settings upload →
    (response.status = 200 ↔ ∃ r, (analysisOf svc c t name content).result = .ok r)
  original : ∀ name content, upload = some (name, content) → response.status = 200 →
    response.member? "originalCode" = some (.text (Analysis.sourceText content))

/-- The uploads at which the service breaks off. -/
inductive Breaks : Option (String × List UInt8) → Prop where
  /-- No upload can be read up to the limit. -/
  | unreadable {name : String} {content : List UInt8} {e : ReadSizeError}
      (h : readUpload c.host svc.settings.uploadLimit content = .error e) : Breaks (some (name, content))
  /-- The result of the analysis cannot be sent. -/
  | unsendable {name : String} {content : List UInt8} {r : Result}
      (hadmitted : ¬Refused svc.settings (some (name, content)))
      (hr : (analysisOf svc c t name content).result = .ok r) (h : r.toJson.isSendable = false) :
      Breaks (some (name, content))

/-- The status that tells how an analysis ended. -/
def statusOf : Except Failure Result → Nat
  | .ok _ => 200
  | .error (.timeout _) => 504
  | .error _ => 500

theorem statusOf_eq (ended : Except Failure Result) :
    (statusOf ended = 504 ↔ ∃ limit, ended = .error (.timeout limit)) ∧
      (statusOf ended = 500 ↔ ∃ f, ended = .error f ∧ ∀ limit, f ≠ .timeout limit) ∧
      (statusOf ended = 200 ↔ ∃ r, ended = .ok r) ∧ statusOf ended ∈ [200, 500, 504] := by
  rcases ended with (e | limit | - | e | e) | r <;> simp [statusOf]

theorem failureAnswer_eq (f : Failure) : ∃ message, failureAnswer f = .error (statusOf (.error f)) message := by
  cases f <;> exact ⟨_, rfl⟩

/-- A result tells what was submitted. -/
theorem submitted_of_run {job : Analysis.Job} {s : Settings} {ws : Workspaces} {t : FileTree} {r : Result}
    (h : (job.run s ws t).result = .ok r) :
    r.sourceCode = Analysis.sourceText job.source ∧ r.submittedName = job.name := by
  obtain ⟨tree, invocation, -, -, rfl⟩ := Analysis.run_eq_ok h
  exact ⟨rfl, rfl⟩

/-- An answer to an upload that was analysed is lawful if its status is that of the analysis. -/
theorem lawful_of_status {name : String} {content : List UInt8}
    (hadmitted : ¬Refused svc.settings (some (name, content))) {response : Response} {handled : Handled}
    (hstatus : response.status = statusOf (analysisOf svc c t name content).result)
    (hsuccess : ∃ b, response.member? "success" = some (.bool b))
    (horiginal : response.status = 200 →
      response.member? "originalCode" = some (.text (Analysis.sourceText content))) :
    Lawful svc c t (some (name, content)) response handled := by
  obtain ⟨h504, h500, h200, hmem⟩ := statusOf_eq (analysisOf svc c t name content).result
  rw [← hstatus] at h504 h500 h200 hmem
  have h400 : response.status ≠ 400 := by
    intro h
    rw [h] at hmem
    exact absurd hmem (by decide)
  have hsubset : [200, 500, 504] ⊆ [200, 400, 500, 504] := by decide
  refine ⟨hsubset hmem, hsuccess, ?_, fun h => absurd h hadmitted, ?_, ?_, ?_, ?_⟩
  · exact ⟨fun h => absurd h h400, fun h => absurd h hadmitted⟩
  · rintro name content ⟨⟩ -
    exact h504
  · rintro name content ⟨⟩ -
    exact h500
  · rintro name content ⟨⟩ -
    exact h200
  · rintro name content ⟨⟩
    exact horiginal

variable {req : Request} (hmethod : Text.upper req.method = "POST")

include hmethod

theorem lawful_refused {upload : Option (String × List UInt8)} (hrefused : Refused svc.settings upload)
    (message : String) (log : List Log.Entry) :
    Lawful svc c t upload (svc.respond req (.error 400 message)) ⟨.error 400 message, t, log, false⟩ := by
  obtain ⟨hstatus, hsuccess, -⟩ := respond_error svc hmethod 400 message
  refine ⟨?_, ⟨false, hsuccess⟩, ?_, fun _ => rfl, ?_, ?_, ?_, ?_⟩
  · rw [hstatus]
    decide
  · exact ⟨fun _ => hrefused, fun _ => hstatus⟩
  · exact fun _ _ _ hadmitted => absurd hrefused hadmitted
  · exact fun _ _ _ hadmitted => absurd hrefused hadmitted
  · exact fun _ _ _ hadmitted => absurd hrefused hadmitted
  · intro name content _ h200
    rw [hstatus] at h200
    cases h200

/-- The answer to an upload that was analysed, unless its result cannot be sent. -/
theorem lawful_analysed {name : String} {content : List UInt8}
    (hadmitted : ¬Refused svc.settings (some (name, content)))
    (hsend : ∀ r, (analysisOf svc c t name content).result = .ok r → r.toJson.isSendable = true)
    (handled : Handled) :
    Lawful svc c t (some (name, content))
      (svc.respond req (answerOf (analysisOf svc c t name content).result)) handled := by
  cases hresult : (analysisOf svc c t name content).result with
  | ok r =>
    obtain ⟨hstatus, hsuccess, horiginal⟩ := respond_result svc hmethod (hsend r hresult)
    refine lawful_of_status svc c t hadmitted ?_ ⟨r.success, hsuccess⟩ fun _ => ?_
    · rw [hstatus, hresult]
      rfl
    · rw [horiginal, (submitted_of_run hresult).1]
      rfl
  | error f =>
    obtain ⟨message, hmessage⟩ := failureAnswer_eq f
    obtain ⟨hstatus, hsuccess, -⟩ := respond_error svc hmethod (statusOf (.error f)) message
    rw [answerOf, hmessage]
    refine lawful_of_status svc c t hadmitted ?_ ⟨false, hsuccess⟩ fun h200 => ?_
    · rw [hstatus, hresult]
    · rw [hstatus] at h200
      obtain ⟨r, hr⟩ := (statusOf_eq (.error f)).2.2.1.1 h200
      cases hr

end

/-! ## Requests -/

theorem route?_analyze (documented : Bool) {path : List Char}
    (h : path = "/analyze".toList ∨ path = "/api/analyze".toList) : route? documented path = some .analyze := by
  rcases h with rfl | rfl <;> cases documented <;> decide

/-- A failure without a body is not lawful. -/
theorem not_lawful_bare {svc : Service} {c : Circumstances} {t : FileTree} {upload : Option (String × List UInt8)}
    {handled : Handled} : ¬Lawful svc c t upload ⟨500, none, none⟩ handled := by
  intro h
  obtain ⟨b, hb⟩ := h.success
  cases hb

theorem handle_analyze (svc : Service) (c : Circumstances) (now : String) (t : FileTree) {req : Request}
    (hpath : req.target.seenPath = "/analyze".toList ∨ req.target.seenPath = "/api/analyze".toList)
    (hmethod : Text.upper req.method = "POST") :
    svc.handle c now req t = (svc.respond req (svc.analyze c req.form t).answer, svc.analyze c req.form t) := by
  unfold handle dispatch
  simp only [route?_analyze svc.documented hpath, hmethod]
  rfl

/-- The service breaks off with a bare failure, or its answer is lawful. -/
theorem analyze_lawful (svc : Service) (c : Circumstances) (t : FileTree) {req : Request}
    {upload : Option (String × List UInt8)} (hmethod : Text.upper req.method = "POST")
    (hform : req.form.check = .ok ()) (hupload : req.form.Carries upload) :
    (Breaks svc c t upload ∧ svc.respond req (svc.analyze c req.form t).answer = ⟨500, none, none⟩) ∨
      ¬Breaks svc c t upload ∧ Lawful svc c t upload (svc.respond req (svc.analyze c req.form t).answer)
        (svc.analyze c req.form t) := by
  rcases analyze_cases svc c t hform hupload with ⟨name, content, e, rfl, hread, hanalyze⟩ |
    ⟨hrefused, hread, message, log, hanalyze⟩ | ⟨name, content, part, rfl, hread, hadmitted, hanswer⟩
  · rw [hanalyze]
    exact Or.inl ⟨.unreadable hread, rfl⟩
  · rw [hanalyze]
    refine Or.inr ⟨?_, lawful_refused svc c t hmethod hrefused message log⟩
    intro hbreaks
    cases hbreaks with
    | unreadable h =>
      obtain ⟨part, hpart⟩ := hread _ _ rfl
      rw [h] at hpart
      cases hpart
    | unsendable hadmitted _ _ => exact hadmitted hrefused
  · rw [hanswer]
    by_cases hsend : ∀ r, (analysisOf svc c t name content).result = .ok r → r.toJson.isSendable = true
    · refine Or.inr ⟨?_, lawful_analysed svc c t hmethod hadmitted hsend _⟩
      intro hbreaks
      cases hbreaks with
      | unreadable h => rw [h] at hread; cases hread
      | unsendable _ hr h => rw [hsend _ hr] at h; cases h
    · simp only [not_forall, Bool.not_eq_true] at hsend
      obtain ⟨r, hr, hunsendable⟩ := hsend
      refine Or.inl ⟨.unsendable hadmitted hr hunsendable, ?_⟩
      rw [hr, answerOf, respond, Option.map_some, Option.getD_some, hunsendable]
      rfl

/-- A service with default settings. -/
def bareService : Service := ⟨{}, Analysis.bareWorkspaces, true, []⟩

/-- A request that uploads a file. -/
def uploadRequest : Request := ⟨"POST", ⟨[], [], "/analyze".toList⟩, ⟨[], some ⟨"codeFile", "a.c", [0x78]⟩⟩, none⟩

theorem carries_uploadRequest : uploadRequest.form.Carries (some ("a.c", [0x78])) :=
  ⟨"a.c", by decide, by decide⟩

/-- A tool that leaves nothing to be read. -/
def garbled : Circumstances := ⟨Analysis.roomyHost, .present Analysis.garbling, "id1", .none⟩

/-- A tool whose float map has half of a surrogate pair in a string. -/
def halved : Circumstances where
  host := Analysis.roomyHost
  tool := .present {
    effect := fun _ _ => some (.directory [("float_map.json", .file (Text.Utf8.encode
      "[\x7b\"value\":\"\\ud800\",\"location\":\"l\",\"safe\":true\x7d]".toList))])
    stdout := []
    stderr := []
    ending := .exited 0
    duration := .finite false 0 0 }
  id := "id1"
  faults := .none

end Demotion.Service
