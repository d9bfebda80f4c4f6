import Demotion.Proofs.Analysis.Diagnostics

/-!
# Artifacts do not disturb each other

What an analysis gives is told by two things: how the tool came out, and the entry that it left in place of the
workspace. Each artifact is read from its own file of that entry. So two analyses whose tools differ in one
artifact only have results that differ only in what is made of that artifact.

* `Job.resultOf`, `run_told`: a result, told by how the tool came out and by what it left.
* `Tool.AlikeExcept`: tools that differ in the file of one artifact.
* `Result.AlikeExcept`: results that differ in what is made of one artifact.
* `run_alikeExcept`: **one artifact has no bearing on what is made of the others.**
-/

namespace Demotion

namespace Analysis

open Assoc (find?)

/-! ## What a result is told by -/

namespace Job

/-- How the tool of an analysis comes out. -/
def outcome (job : Job) (s : Settings) (ws : Workspaces) (t : FileTree) : Tool.Outcome :=
  (job.tool.run job.host s (job.workspace ws) ((job.workspace ws).acquire job.source t).1).2

/-- The directory of the analysis as it is made. -/
def given (job : Job) : Node :=
  .directory [(.ofContent (Submission.sourceName job.name), .file job.source)]

/-- The entry that the tool leaves in place of the workspace. -/
def cellLeft (job : Job) : Option Node :=
  job.tool.cellAfter (.ofContent (Submission.sourceName job.name)) (some job.given)

/-- The result of an analysis whose tool came out in a given way and left a given entry. -/
def resultOf (job : Job) (s : Settings) (w : Workspace) (outcome : Tool.Outcome) (cell : Option Node) :
    Except Failure Result :=
  closing w ((outcome.report s w job.tool.duration).bind (job.gathered w cell))
    (w.releaseOf s.retainWorkspaces cell)

end Job

section Told

variable {job : Job} {s : Settings} {ws : Workspaces} {t : FileTree}

/-- **The result of an analysis whose workspace was made** is told by how its tool came out and by what it
left. -/
theorem run_told (hacquired : ((job.workspace ws).acquire job.source t).2 = .ok (job.workspace ws)) :
    (job.run s ws t).result = job.resultOf s (job.workspace ws) (job.outcome s ws t) job.cellLeft := by
  obtain ⟨σ, name, b, hacquire⟩ := exists_berth hacquired
  have hleft : job.tool.cellAfter (job.workspace ws).sourceFile (some ((job.workspace ws).fresh job.source)) =
      job.cellLeft := rfl
  have houtcome : job.outcome s ws t =
      (job.tool.run job.host s (job.workspace ws) (σ.fill [(name, (job.workspace ws).fresh job.source)])).2 := by
    unfold Job.outcome
    rw [hacquire]
  have hgather : ∀ invocation,
      (job.gather (job.workspace ws) (job.tool.run job.host s (job.workspace ws)
        (σ.fill [(name, (job.workspace ws).fresh job.source)])).1 invocation).1 =
        job.gathered (job.workspace ws) job.cellLeft invocation := by
    intro invocation
    rw [b.run_tree, gather_fill b, Assoc.find?_assign_self, Assoc.find?_singleton, hleft]
  have hrelease : ((job.workspace ws).release s.retainWorkspaces (job.work s (job.workspace ws)
      (σ.fill [(name, (job.workspace ws).fresh job.source)])).tree).2 =
        (job.workspace ws).releaseOf s.retainWorkspaces job.cellLeft := by
    rw [work_tree b, b.release_fill, Assoc.find?_assign_self, Assoc.find?_singleton, hleft]
  have hrun : (job.run s ws t).result = (job.finish s (job.workspace ws) (job.work s (job.workspace ws)
      (σ.fill [(name, (job.workspace ws).fresh job.source)]))).result := (run_acquired rfl hacquire).2
  rw [hrun, finish_result, hrelease, work_result, houtcome]
  simp only [hgather]
  rfl

/-- A result comes after a report on the tool, and is made of what the tool left. -/
theorem resultOf_eq_ok {w : Workspace} {outcome : Tool.Outcome} {cell : Option Node} {r : Result}
    (h : job.resultOf s w outcome cell = .ok r) :
    ∃ invocation, outcome.report s w job.tool.duration = .ok invocation ∧
      r = (job.aggregate (Artifacts.ofCell w cell) invocation).1 := by
  unfold Job.resultOf Job.closing at h
  split at h
  · rename_i hworked _
    cases hreport : outcome.report s w job.tool.duration with
    | error failure => rw [hreport] at hworked; cases hworked
    | ok invocation =>
      rw [hreport] at hworked
      change job.gathered w cell invocation = _ at hworked
      unfold Job.gathered at hworked
      split at hworked
      · cases hworked
      · cases hworked
        cases h
        exact ⟨invocation, rfl, rfl⟩
  · cases h
  · cases h

end Told

end Analysis

/-! ## Alike but for one artifact -/

/-- Two tools that, run on a source in its directory, behave alike but for the file of an artifact: how long they
take does not count. -/
inductive Tool.AlikeExcept (a : Artifact) (source : FileName) (given : Node) : Tool → Tool → Prop where
  | absent : AlikeExcept a source given .absent .absent
  | present {run run' : ToolRun} (stdout : run.stdout = run'.stdout) (stderr : run.stderr = run'.stderr)
      (ending : run.ending = run'.ending)
      (files : ∀ key, key ≠ .text a.fileName →
        (run.effect source given).bind (·.get? [key]) = (run'.effect source given).bind (·.get? [key])) :
      AlikeExcept a source given (.present run) (.present run')

namespace Analysis

/-- Two results that are alike but for what is made of an artifact. -/
structure Result.AlikeExcept (a : Artifact) (r r' : Result) : Prop where
  success : r.success = r'.success
  error : r.error = r'.error
  stdout : r.stdout = r'.stdout
  stderr : r.stderr = r'.stderr
  sourceCode : r.sourceCode = r'.sourceCode
  submittedName : r.submittedName = r'.submittedName
  demotedCode : a ≠ .demotedCode → r.demotedCode = r'.demotedCode ∧ r.differences = r'.differences
  memoryReport : a ≠ .memoryReport → r.memoryAnalysis = r'.memoryAnalysis ∧ r.memoryReport = r'.memoryReport
  floatMap : a ≠ .floatMap → r.jsonAnalysis = r'.jsonAnalysis

theorem fileName_injective {a a' : Artifact} (h : a.fileName = a'.fileName) : a = a' := by
  cases a <;> cases a' <;> first | rfl | exact absurd h (by decide)

/-- The text that is read of a file does not depend on its path. -/
theorem text?_ofFound (p p' : FilePath) (found : Option Node) :
    (Artifact.ofFound p found).text? = (Artifact.ofFound p' found).text? := by
  unfold Artifact.ofFound
  split <;> rfl

/-- What the tools leave has the same to be read of every other artifact. -/
theorem ofCell_alike {a a' : Artifact} (hne : a ≠ a') {source : FileName} {given : List (FileName × Node)}
    {tool tool' : Tool} (h : tool.AlikeExcept a source (.directory given) tool') (w w' : Workspace) :
    (a'.ofCell w (tool.cellAfter source (some (.directory given)))).text? =
      (a'.ofCell w' (tool'.cellAfter source (some (.directory given)))).text? := by
  unfold Artifact.ofCell
  rw [text?_ofFound (a'.path w) (a'.path w')]
  cases h with
  | absent => rfl
  | @present run run' _ _ _ files =>
    have hfile := files (.text a'.fileName) fun hname => hne (fileName_injective (FileName.text.inj hname)).symm
    have hleft : ∀ run : ToolRun, (Tool.present run).cellAfter source (some (.directory given)) =
        run.effect source (.directory given) := fun _ => rfl
    rw [hleft, hleft, hfile]

section Aggregate

variable {job job' : Job} {artifacts artifacts' : Artifacts} {invocation invocation' : Invocation}

/-- What is made of the demoted code depends on its text, the source and whether the comparison is made to
fail. -/
theorem demotedCode_aggregate (hsource : job.source = job'.source) (hfaults : job.faults = job'.faults)
    (htext : artifacts.demotedCode = artifacts'.demotedCode) :
    (job.aggregate artifacts invocation).1.demotedCode = (job'.aggregate artifacts' invocation').1.demotedCode ∧
      (job.aggregate artifacts invocation).1.differences =
        (job'.aggregate artifacts' invocation').1.differences := by
  refine ⟨htext, ?_⟩
  change ((job.parts artifacts invocation).comparison job.faults).outcome? =
    ((job'.parts artifacts' invocation').comparison job'.faults).outcome?
  unfold Parts.comparison Job.parts
  rw [htext, hsource, hfaults]

/-- What is made of the report depends on its text and whether reading it is made to fail. -/
theorem memoryReport_aggregate (hfaults : job.faults = job'.faults)
    (htext : artifacts.memoryReport = artifacts'.memoryReport) :
    (job.aggregate artifacts invocation).1.memoryAnalysis =
        (job'.aggregate artifacts' invocation').1.memoryAnalysis ∧
      (job.aggregate artifacts invocation).1.memoryReport =
        (job'.aggregate artifacts' invocation').1.memoryReport := by
  refine ⟨htext, ?_⟩
  change (readReport job.faults artifacts.memoryReport).outcome? =
    (readReport job'.faults artifacts'.memoryReport).outcome?
  rw [htext, hfaults]

/-- What is made of the float map depends on its text, the host and whether reading it is made to fail. -/
theorem floatMap_aggregate (hhost : job.host = job'.host) (hfaults : job.faults = job'.faults)
    (htext : artifacts.floatMap = artifacts'.floatMap) :
    (job.aggregate artifacts invocation).1.jsonAnalysis =
      (job'.aggregate artifacts' invocation').1.jsonAnalysis := by
  change (job.parts artifacts invocation).records = (job'.parts artifacts' invocation').records
  unfold Parts.records Job.parts
  simp only [htext, hhost, hfaults]

end Aggregate

/-! ## Two analyses -/

section TwoRuns

variable {a : Artifact} {job job' : Job} {s : Settings} {ws ws' : Workspaces} {t t' : FileTree}

/-- A tool that can be started comes out as its run says. -/
theorem outcome_present (hacquired : ((job.workspace ws).acquire job.source t).2 = .ok (job.workspace ws))
    {run : ToolRun} (htool : job.tool = .present run) :
    job.outcome s ws t = Tool.outcome job.host.memory s.outputLimit run := by
  obtain ⟨σ, name, b, hacquire⟩ := exists_berth hacquired
  unfold Job.outcome
  rw [hacquire, htool]
  exact b.run_present (Assoc.find?_singleton name _) run

theorem outcome_alike (hacquired : ((job.workspace ws).acquire job.source t).2 = .ok (job.workspace ws))
    (hacquired' : ((job'.workspace ws').acquire job'.source t').2 = .ok (job'.workspace ws'))
    (hhost : job.host = job'.host)
    (htools : job.tool.AlikeExcept a (.ofContent (Submission.sourceName job.name)) job.given job'.tool)
    (habsent : job.tool = .absent → job.outcome s ws t = job'.outcome s ws' t') :
    job.outcome s ws t = job'.outcome s ws' t' := by
  generalize htool : job.tool = tool at htools habsent
  generalize htool' : job'.tool = tool' at htools
  cases htools with
  | absent => exact habsent rfl
  | present stdout stderr ending files =>
    rw [outcome_present hacquired htool, outcome_present hacquired' htool']
    unfold Tool.outcome
    rw [hhost, stdout, stderr, ending]

/-- Reports on tools that came out alike. -/
theorem report_alike {outcome : Tool.Outcome} {w w' : Workspace} {duration duration' : Binary64}
    {invocation invocation' : Invocation} (h : outcome.report s w duration = .ok invocation)
    (h' : outcome.report s w' duration' = .ok invocation') :
    invocation.success = invocation'.success ∧ invocation.failureReason = invocation'.failureReason ∧
      invocation.stdout = invocation'.stdout ∧ invocation.stderr = invocation'.stderr := by
  cases outcome with
  | timedOut => cases h
  | unusable failure => cases h
  | unreadable e => cases h
  | notStarted cause =>
    cases h
    cases h'
    exact ⟨rfl, rfl, rfl, rfl⟩
  | finished status stdout stderr =>
    cases h
    cases h'
    exact ⟨rfl, rfl, rfl, rfl⟩

/-- **One artifact has no bearing on what is made of the others.** Of two analyses of the same source under the
same name and settings on the same host that give results, with tools that behave alike but for the file of one
artifact, the results are alike but for what is made of that artifact. The ids, the workspaces and the files
beside them may differ, where a tool that cannot be started is missing for the same reason. -/
theorem run_alikeExcept (hsource : job.source = job'.source) (hname : job.name = job'.name)
    (hhost : job.host = job'.host) (hfaults : job.faults = job'.faults)
    (htools : job.tool.AlikeExcept a (.ofContent (Submission.sourceName job.name)) job.given job'.tool)
    (habsent : job.tool = .absent → job.outcome s ws t = job'.outcome s ws' t') {r r' : Result}
    (hr : (job.run s ws t).result = .ok r) (hr' : (job'.run s ws' t').result = .ok r') :
    Result.AlikeExcept a r r' := by
  obtain ⟨_, _, hacquire, -⟩ := run_eq_ok hr
  obtain ⟨_, _, hacquire', -⟩ := run_eq_ok hr'
  have hacquired := congrArg Prod.snd hacquire
  have hacquired' := congrArg Prod.snd hacquire'
  -- both results are told by the same outcome and by what each tool left
  rw [run_told hacquired] at hr
  rw [run_told hacquired', ← outcome_alike hacquired hacquired' hhost htools habsent] at hr'
  obtain ⟨invocation, hreport, rfl⟩ := resultOf_eq_ok hr
  obtain ⟨invocation', hreport', rfl⟩ := resultOf_eq_ok hr'
  obtain ⟨hsuccess, hreason, hstdout, hstderr⟩ := report_alike hreport hreport'
  -- what the tools leave differs in the one artifact only
  have hcell : ∀ a', a ≠ a' → (a'.ofCell (job.workspace ws) job.cellLeft).text? =
      (a'.ofCell (job'.workspace ws') job'.cellLeft).text? := by
    intro a' hne
    have halike := ofCell_alike hne htools (job.workspace ws) (job'.workspace ws')
    unfold Job.cellLeft Job.given
    rw [← hname, ← hsource]
    exact halike
  exact {
    success := hsuccess
    error := hreason
    stdout := hstdout
    stderr := hstderr
    sourceCode := congrArg sourceText hsource
    submittedName := hname
    demotedCode := fun hne => demotedCode_aggregate hsource hfaults (hcell .demotedCode hne)
    memoryReport := fun hne => memoryReport_aggregate hfaults (hcell .memoryReport hne)
    floatMap := fun hne => floatMap_aggregate hhost hfaults (hcell .floatMap hne) }

end TwoRuns

/-- A tool that leaves other bytes in the file of an artifact. -/
def rewriting (run : ToolRun) (a : Artifact) (bytes : List UInt8) : ToolRun :=
  { run with
    effect := fun source given =>
      (run.effect source given).map (·.modify (Assoc.set (.text a.fileName) (.file bytes)) []) }

theorem alikeExcept_rewriting (run : ToolRun) (a : Artifact) (bytes : List UInt8) (source : FileName)
    (given : Node) :
    Tool.AlikeExcept a source given (.present run) (.present (rewriting run a bytes)) := by
  refine .present rfl rfl rfl fun key hkey => ?_
  unfold rewriting
  simp only
  cases run.effect source given with
  | none => rfl
  | some node =>
    rw [Option.map_some, Option.bind_some, Option.bind_some, Node.get?_singleton, Node.get?_singleton,
      Node.modify]
    by_cases hkind : node.kind = .directory
    · rw [Node.entries_withEntries _ hkind, Assoc.find?_set, if_neg (Ne.symm hkey)]
    · rw [Node.withEntries_of_ne _ hkind]

/-- The analysis with a tool that reports, but whose memory report is no UTF-8. -/
def misreportingJob : Job :=
  { reportingJob with tool := .present (rewriting reporting .memoryReport [0xFF]), id := "id2" }

theorem run_alikeExcept_misreporting :
    ∃ r r', (reportingJob.run {} bareWorkspaces bareTree).result = .ok r ∧
      (misreportingJob.run {} bareWorkspaces bareTree).result = .ok r' ∧
      r.memoryReport.isSome = true ∧ r'.memoryReport.isSome = false ∧ Result.AlikeExcept .memoryReport r r' := by
  have hreport : (reportingJob.run {} bareWorkspaces bareTree).result.toOption.map (·.memoryReport.isSome) =
      some true := by decide +kernel
  have hreport' : (misreportingJob.run {} bareWorkspaces bareTree).result.toOption.map (·.memoryReport.isSome) =
      some false := by decide +kernel
  cases hr : (reportingJob.run {} bareWorkspaces bareTree).result with
  | error failure => rw [hr] at hreport; cases hreport
  | ok r =>
    cases hr' : (misreportingJob.run {} bareWorkspaces bareTree).result with
    | error failure => rw [hr'] at hreport'; cases hreport'
    | ok r' =>
      rw [hr] at hreport
      rw [hr'] at hreport'
      have hsource : reportingJob.source = misreportingJob.source := rfl
      have htools := alikeExcept_rewriting reporting .memoryReport [0xFF]
        (.ofContent (Submission.sourceName reportingJob.name)) reportingJob.given
      exact ⟨r, r', rfl, rfl, Option.some.inj hreport, Option.some.inj hreport',
        run_alikeExcept hsource rfl rfl rfl htools (fun h => by cases h) hr hr'⟩

end Analysis

end Demotion
