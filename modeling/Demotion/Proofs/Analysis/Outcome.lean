import Demotion.Proofs.Analysis.Stages
import Demotion.Proofs.Artifacts

/-!
# When an analysis gives a result

An analysis whose workspace was made, whose tool is not stopped by the time limit and leaves the workspace so
that it can be removed gives a result or not before any artifact is read: what the artifacts hold, whether they
are there and which steps are made to fail makes no difference. What stands in its way are settings that the
system does not take, and a workspace whose path leaves no room for the names of the artifacts.

* `run_eq_ok`: a result is made of the artifacts that there are to be read and of the report on the tool.
* `report_run_cases`, `tells_of_report`: when there is such a report, and what it says.
* `run_returns`: **when there is a result, and what it says about the tool.**
* `run_fails_long_path`: a path can be too long for one artifact and short enough for the workspace.
-/

namespace Demotion.Analysis

open Assoc (find?)
open Captured (ofBytes_cases)

/-- The files as the tool leaves them, from which the artifacts are collected. -/
def Job.filesLeft (job : Job) (s : Settings) (ws : Workspaces) (t : FileTree) : FileTree :=
  (job.tool.run job.host s (job.workspace ws) ((job.workspace ws).acquire job.source t).1).1

/-! ## Results come from artifacts -/

theorem gather_eq_ok {job : Job} {w : Workspace} {t : FileTree} {invocation : Invocation} {r : Result}
    (h : (job.gather w t invocation).1 = .ok r) :
    r = (job.aggregate (Artifacts.readable w t) invocation).1 := by
  unfold Job.gather at h
  cases hfound : (Artifacts.find w t).artifacts with
  | error e => simp only [hfound] at h; cases h
  | ok artifacts =>
    have hreadable := Artifacts.collect_eq_ok (show Artifacts.collect w t = .ok artifacts from hfound)
    simp only [hfound, Except.ok.injEq] at h
    rw [← h, hreadable]

/-- A result after the release is one of the work. -/
theorem finish_eq_ok {job : Job} {s : Settings} {w : Workspace} {worked : Finished} {r : Result}
    (h : (job.finish s w worked).result = .ok r) : worked.result = .ok r := by
  rw [finish_result] at h
  split at h
  · rename_i hworked _
    rw [hworked, h]
  · cases h
  · cases h

/-- A result of the work comes after a report on the tool. -/
theorem work_eq_ok {job : Job} {s : Settings} {w : Workspace} {tree : FileTree} {r : Result}
    (h : (job.work s w tree).result = .ok r) :
    ∃ invocation, (job.tool.run job.host s w tree).2.report s w job.tool.duration = .ok invocation ∧
      (job.gather w (job.tool.run job.host s w tree).1 invocation).1 = .ok r := by
  rw [work_result] at h
  cases hreport : (job.tool.run job.host s w tree).2.report s w job.tool.duration with
  | error failure => rw [hreport] at h; cases h
  | ok invocation => rw [hreport] at h; exact ⟨invocation, rfl, h⟩

/-- **A result is made of the artifacts that there are to be read**, and of the report on the tool. -/
theorem run_eq_ok {job : Job} {s : Settings} {ws : Workspaces} {t : FileTree} {r : Result}
    (h : (job.run s ws t).result = .ok r) :
    ∃ tree invocation, (job.workspace ws).acquire job.source t = (tree, .ok (job.workspace ws)) ∧
      (job.tool.run job.host s (job.workspace ws) tree).2.report s (job.workspace ws) job.tool.duration =
        .ok invocation ∧
      r = (job.aggregate (Artifacts.readable (job.workspace ws) (job.filesLeft s ws t)) invocation).1 := by
  rcases hacquire : (job.workspace ws).acquire job.source t with ⟨tree, failure | w⟩
  · rw [run_refused rfl hacquire] at h
    cases h
  · obtain rfl := acquire_eq hacquire
    obtain ⟨invocation, hreport, hgather⟩ := work_eq_ok (finish_eq_ok ((run_acquired rfl hacquire).2 ▸ h))
    refine ⟨tree, invocation, rfl, hreport, ?_⟩
    rw [gather_eq_ok hgather, Job.filesLeft, hacquire]
    rfl

/-! ## Reports on the tool -/

/-- Output of the tool as it is kept: as many bytes as the limit says. A limit of -2 keeps all but two bytes. -/
def keptText (limit : Int) (bytes : List UInt8) : String :=
  String.ofList (Text.Utf8.decodeLossy
    (bytes.take (if limit = -2 then bytes.length - 2 else limit.toNat)))

theorem text_ofBytes {memory limit : Int} {bytes : List UInt8} {c : Captured}
    (h : Captured.ofBytes memory limit bytes = .ok c) : c.text = keptText limit bytes := by
  unfold Captured.ofBytes at h
  unfold keptText
  cases hcheck : ReadSize.check memory (limit + 1) with
  | error e => rw [hcheck] at h; cases h
  | ok u =>
    rw [hcheck] at h
    by_cases hlimit : limit = -2
    · simp only [if_pos hlimit] at h ⊢; cases h; rfl
    · simp only [if_neg hlimit] at h ⊢; cases h; rfl

theorem failureReason_eq_none {status : Int} : Tool.failureReason status = none ↔ status = 0 := by
  unfold Tool.failureReason
  by_cases hneg : status < 0
  · rw [if_pos hneg]
    exact ⟨fun h => (by cases h), fun h => by omega⟩
  · by_cases hpos : 0 < status
    · rw [if_neg hneg, if_pos hpos]
      exact ⟨fun h => (by cases h), fun h => by omega⟩
    · rw [if_neg hneg, if_neg hpos]
      exact ⟨fun _ => by omega, fun _ => rfl⟩

/-- The failure of starting the tool and reading its output. -/
def toolFailure? (host : Host) (s : Settings) (w : Workspace) : Tool → Option Failure
  | .absent => (Tool.command s w).findSome? Failure.ofContent?
  | .present run => runFailure? host s run

/-- What an invocation says about the tool. -/
structure Tells (s : Settings) (tool : Tool) (invocation : Invocation) : Prop where
  success : invocation.success = true ↔ ∃ run, tool = .present run ∧ run.ending = .exited 0
  reason : invocation.success = true ↔ invocation.failureReason = none
  absent : tool = .absent → invocation.stdout = "" ∧ invocation.stderr = ""
  present : ∀ run, tool = .present run →
    invocation.stdout = keptText s.outputLimit run.stdout ∧ invocation.stderr = keptText s.outputLimit run.stderr

section Report

variable {t : FileTree} {σ : Site t} {w : Workspace} {name : FileName} (b : Berth σ w name) {host : Host}
  {s : Settings} {more es : List (FileName × Node)} (hcell : find? name more = some (.directory es))

include b hcell

/-- A tool that is not there is not started, unless its command cannot even be tried. -/
theorem run_absent :
    (∃ failure, (Tool.command s w).findSome? Failure.ofContent? = some failure ∧
        (Tool.absent.run host s w (σ.fill more)).2 = .unusable failure) ∨
      (Tool.command s w).findSome? Failure.ofContent? = none ∧
        ∃ cause, (Tool.absent.run host s w (σ.fill more)).2 = .notStarted cause := by
  unfold Tool.run Tool.start
  simp only
  cases (Tool.command s w).findSome? Failure.ofContent? with
  | some failure => exact Or.inl ⟨failure, rfl, rfl⟩
  | none =>
    rw [b.locate_fill]
    simp only [b.enter_fill, hcell]
    exact Or.inr ⟨trivial, _, rfl⟩

theorem report_run_cases (tool : Tool) (duration : Binary64) :
    (∃ failure, toolFailure? host s w tool = some failure ∧
        (tool.run host s w (σ.fill more)).2.report s w duration = .error failure) ∨
      toolFailure? host s w tool = none ∧
        ∃ invocation, (tool.run host s w (σ.fill more)).2.report s w duration = .ok invocation := by
  cases tool with
  | absent =>
    unfold toolFailure?
    rcases run_absent b hcell with ⟨failure, hcommand, hrun⟩ | ⟨hcommand, cause, hrun⟩
    · rw [hrun, hcommand]; exact Or.inl ⟨failure, rfl, rfl⟩
    · rw [hrun, hcommand]; exact Or.inr ⟨rfl, _, rfl⟩
  | present run =>
    rw [b.run_present hcell]
    exact report_cases host s w run duration

/-- Work in a workspace gives a result unless the tool or the path of an artifact stands in its way. -/
theorem work_cases (job : Job) {left : Option Node}
    (hleft : job.tool.cellAfter w.sourceFile (some (.directory es)) = left) :
    (∃ failure, (toolFailure? job.host s w job.tool).or (lookupFailure? w left) = some failure ∧
        (job.work s w (σ.fill more)).result = .error failure) ∨
      (toolFailure? job.host s w job.tool).or (lookupFailure? w left) = none ∧
        ∃ r, (job.work s w (σ.fill more)).result = .ok r := by
  rw [work_result, b.run_tree, hcell, hleft]
  rcases report_run_cases b hcell job.tool job.tool.duration with
    ⟨failure, hfailure, hreport⟩ | ⟨hnone, invocation, hreport⟩
  · rw [hfailure, hreport]
    exact Or.inl ⟨failure, rfl, rfl⟩
  · have hgather := gather_cases b job (Assoc.assign name left more) invocation
    rw [Assoc.find?_assign_self] at hgather
    rw [hnone, hreport, Option.none_or]
    exact hgather

/-- **What the report on the tool says.** -/
theorem tells_of_report {tool : Tool} {duration : Binary64} {invocation : Invocation}
    (h : (tool.run host s w (σ.fill more)).2.report s w duration = .ok invocation) : Tells s tool invocation := by
  cases tool with
  | absent =>
    rcases run_absent b hcell with ⟨failure, -, hrun⟩ | ⟨-, cause, hrun⟩
    · rw [hrun] at h; cases h
    · rw [hrun] at h
      cases h
      refine ⟨⟨fun h => (by cases h), ?_⟩, ⟨fun h => (by cases h), fun h => (by cases h)⟩,
        fun _ => ⟨rfl, rfl⟩, ?_⟩
      · rintro ⟨run, htool, -⟩; cases htool
      · intro run htool; cases htool
  | present run =>
    rw [b.run_present hcell, Tool.outcome] at h
    cases hending : run.ending with
    | timedOut => rw [hending] at h; cases h
    | exited status =>
      rw [hending] at h
      rcases ofBytes_cases host.memory s.outputLimit run.stdout with ⟨e, -, hout⟩ | ⟨hok, out, hout⟩
      · rw [hout] at h; cases h
      · rcases ofBytes_cases host.memory s.outputLimit run.stderr with ⟨e, he, -⟩ | ⟨-, err, herr⟩
        · rw [hok] at he; cases he
        · rw [hout, herr] at h
          cases h
          refine ⟨?_, ?_, fun h => (by cases h), ?_⟩
          · simp only [decide_eq_true_eq, Tool.present.injEq, exists_eq_left', hending, Ending.exited.injEq]
          · simp only [decide_eq_true_eq, failureReason_eq_none]
          · intro run' htool
            cases htool
            exact ⟨text_ofBytes hout, text_ofBytes herr⟩

end Report

/-! ## Whole analyses -/

/-- Nothing that is known before the tool is started stands in the way of a result. -/
structure Unobstructed (host : Host) (s : Settings) (w : Workspace) (tool : Tool) : Prop where
  /-- The command can be tried also if there is no such program. -/
  command : tool = .absent → ∀ word ∈ Tool.command s w, word.IsTaken
  /-- Output can be read up to the limit. -/
  output : ∀ run, tool = .present run → ReadSize.check host.memory (s.outputLimit + 1) = .ok ()
  /-- The artifacts can be looked up. -/
  paths : ∀ a : Artifact, (a.path w).content.size ≤ FileTree.maxPath

/-- In a workspace that can be removed, or is gone, only a path that is too long cannot be looked up. -/
theorem lookupFailure?_eq_none {w : Workspace} {cell : Option Node} (h : w.cellReleased false cell = none) :
    lookupFailure? w cell = none ↔ ∀ a : Artifact, (a.path w).content.size ≤ FileTree.maxPath := by
  have henter : ∀ fault, Kind.enter (cell.map Node.kind) = .error fault → fault.meansAbsent = true := by
    intro fault hfault
    rcases cell with _ | (c | es | ⟨what, cause⟩ | n)
    · cases hfault; rfl
    · cases h
    · cases hfault
    · cases h
    · unfold Workspace.cellReleased Node.stays? at h
      simp only [Bool.false_eq_true, if_false, Option.bind_some] at h
      split at h <;> cases h
  have hbarrier : ∀ a : Artifact, a.barrier? w cell = none ↔ (a.path w).content.size ≤ FileTree.maxPath := by
    intro a
    unfold Artifact.barrier?
    cases hcell : Kind.enter (cell.map Node.kind) with
    | ok u => simp
    | error fault => simp [henter fault hcell]
  simp only [lookupFailure?, Option.map_eq_none_iff, List.findSome?_eq_none_iff, hbarrier]
  exact ⟨fun h a => h a a.mem_all, fun h a _ => h a⟩

theorem unobstructed_iff {host : Host} {s : Settings} {w : Workspace} {tool : Tool} {cell : Option Node}
    (hended : ∀ run, tool = .present run → run.ending ≠ .timedOut) (h : w.cellReleased false cell = none) :
    Unobstructed host s w tool ↔ toolFailure? host s w tool = none ∧ lookupFailure? w cell = none := by
  have htool : toolFailure? host s w tool = none ↔
      (tool = .absent → ∀ word ∈ Tool.command s w, word.IsTaken) ∧
        ∀ run, tool = .present run → ReadSize.check host.memory (s.outputLimit + 1) = .ok () := by
    cases tool with
    | absent => simp [toolFailure?, ofContent?_eq_none]
    | present run =>
      rw [toolFailure?, runFailure?]
      cases hending : run.ending with
      | timedOut =>
        -- a limit of output is looked at only if the tool was not stopped
        exact absurd hending (hended run rfl)
      | exited status => cases ReadSize.check host.memory (s.outputLimit + 1) <;> simp
  rw [htool, lookupFailure?_eq_none h]
  exact ⟨fun h => ⟨⟨h.command, h.output⟩, h.paths⟩, fun h => ⟨h.1.1, h.1.2, h.2⟩⟩

/-- What is in place of a workspace can be removed, or there is nothing. -/
def Removable (w : Workspace) (t : FileTree) : Prop :=
  t.node? w.path = none ∨ (t.removeDirectory w.path).2 = .ok ()

/-- What can be removed is given up without a failure. -/
theorem releaseOf_result {w : Workspace} {cell : Option Node} (h : w.cellReleased false cell = none)
    (retain : Bool) : (w.releaseOf retain cell).result w = .ok () := by
  unfold Workspace.releaseOf
  cases retain with
  | true => rfl
  | false =>
    cases cell with
    | none => rfl
    | some node =>
      have hstays : node.stays? w.path = none := Option.map_eq_none_iff.1 h
      simp only [hstays]
      rfl

theorem removable_fill {t : FileTree} {σ : Site t} {w : Workspace} {name : FileName} (b : Berth σ w name)
    {more : List (FileName × Node)} :
    Removable w (σ.fill more) ↔ w.cellReleased false (find? name more) = none := by
  unfold Removable
  rw [b.node?_fill]
  cases hcell : find? name more with
  | none => exact iff_of_true (Or.inl rfl) rfl
  | some node =>
    rw [b.removeDirectory_fill hcell]
    change _ ∨ _ ↔ (node.stays? w.path).map (·.1) = none
    cases node.stays? w.path with
    | none => exact iff_of_true (Or.inr rfl) rfl
    | some left => simp

section Whole

variable {job : Job} {s : Settings} {ws : Workspaces} {t : FileTree}

/-- A workspace that was made stands in a berth, as a directory with the source in it. -/
theorem exists_berth (h : ((job.workspace ws).acquire job.source t).2 = .ok (job.workspace ws)) :
    ∃ (σ : Site t) (name : FileName), Berth σ (job.workspace ws) name ∧
      (job.workspace ws).acquire job.source t =
        (σ.fill [(name, (job.workspace ws).fresh job.source)], .ok (job.workspace ws)) := by
  have hnames : ∃ front last, (job.workspace ws).path.names = front ++ [last] :=
    exists_names_workspace ws job.id job.name
  rcases Workspace.acquire_outcomes hnames job.source t with
    ⟨⟨failure, hrefused⟩, -⟩ | ⟨σ, name, b, -, ⟨failure, -, -, hstranded⟩ | ⟨-, hmade⟩⟩
  · rw [hrefused] at h; cases h
  · rw [hstranded] at h; cases h
  · exact ⟨σ, name, b, hmade⟩

/-- The files as the tool leaves them, told by the entry of the workspace. -/
theorem filesLeft_fill {σ : Site t} {name : FileName} (b : Berth σ (job.workspace ws) name)
    (hacquire : (job.workspace ws).acquire job.source t =
      (σ.fill [(name, (job.workspace ws).fresh job.source)], .ok (job.workspace ws))) :
    job.filesLeft s ws t = σ.fill (Assoc.assign name (job.tool.cellAfter (job.workspace ws).sourceFile
      (some ((job.workspace ws).fresh job.source))) [(name, (job.workspace ws).fresh job.source)]) := by
  unfold Job.filesLeft
  rw [hacquire, b.run_tree, Assoc.find?_singleton]

/-- The result of an analysis, or what stands in its way: first the tool, and then the path of an artifact. -/
theorem run_cases (hacquired : ((job.workspace ws).acquire job.source t).2 = .ok (job.workspace ws))
    (hleft : Removable (job.workspace ws) (job.filesLeft s ws t)) :
    ∃ cell, (job.workspace ws).cellReleased false cell = none ∧
      ((∃ failure, (toolFailure? job.host s (job.workspace ws) job.tool).or
          (lookupFailure? (job.workspace ws) cell) = some failure ∧ (job.run s ws t).result = .error failure) ∨
        (toolFailure? job.host s (job.workspace ws) job.tool).or (lookupFailure? (job.workspace ws) cell) = none ∧
          ∃ r, (job.run s ws t).result = .ok r) := by
  obtain ⟨σ, name, b, hacquire⟩ := exists_berth hacquired
  have hcell := Assoc.find?_singleton name ((job.workspace ws).fresh job.source)
  have hfiles := filesLeft_fill b hacquire (s := s)
  generalize hcellAfter : job.tool.cellAfter (job.workspace ws).sourceFile
    (some ((job.workspace ws).fresh job.source)) = cell at hfiles
  have hremoved : (job.workspace ws).cellReleased false cell = none := by
    rw [hfiles, removable_fill b, Assoc.find?_assign_self] at hleft
    exact hleft
  have hrelease : ∀ retain, ((job.workspace ws).release retain (job.filesLeft s ws t)).2.result
      (job.workspace ws) = .ok () := by
    intro retain
    rw [hfiles, b.release_fill, Assoc.find?_assign_self]
    exact releaseOf_result hremoved retain
  have htree : (job.work s (job.workspace ws) (σ.fill [(name, (job.workspace ws).fresh job.source)])).tree =
      job.filesLeft s ws t := by
    rw [work_fst, Job.filesLeft, hacquire]
  have hrun : (job.run s ws t).result = (job.finish s (job.workspace ws) (job.work s (job.workspace ws)
      (σ.fill [(name, (job.workspace ws).fresh job.source)]))).result := (run_acquired rfl hacquire).2
  -- the release does not fail, so that the result is that of the work
  refine ⟨cell, hremoved, ?_⟩
  rw [hrun, finish_result, htree, hrelease]
  rcases work_cases b hcell job hcellAfter with ⟨failure, hfailure, hworked⟩ | ⟨hnone, r, hworked⟩
  · rw [hworked]; exact Or.inl ⟨failure, hfailure, rfl⟩
  · rw [hworked]; exact Or.inr ⟨hnone, r, rfl⟩

/-- **No artifact can break an analysis.** Where the workspace was made, the tool was not stopped and left the
workspace removable or removed, the settings and the path of the workspace decide whether there is a result:
neither what the artifacts hold nor which steps are made to fail. A result is a success exactly if the tool was
there and exited with status 0, and exactly if it has no error; its output is that of the tool as far as it is
kept, and empty if there is no tool. -/
theorem run_returns (hacquired : ((job.workspace ws).acquire job.source t).2 = .ok (job.workspace ws))
    (hended : ∀ run, job.tool = .present run → run.ending ≠ .timedOut)
    (hleft : Removable (job.workspace ws) (job.filesLeft s ws t)) :
    ((∃ r, (job.run s ws t).result = .ok r) ↔ Unobstructed job.host s (job.workspace ws) job.tool) ∧
      ∀ r, (job.run s ws t).result = .ok r →
        (r.success = true ↔ ∃ run, job.tool = .present run ∧ run.ending = .exited 0) ∧
        (r.success = true ↔ r.error = none) ∧
        (job.tool = .absent → r.stdout = "" ∧ r.stderr = "") ∧
        ∀ run, job.tool = .present run →
          r.stdout = keptText s.outputLimit run.stdout ∧ r.stderr = keptText s.outputLimit run.stderr := by
  refine ⟨?_, ?_⟩
  · obtain ⟨cell, hcell, hcases⟩ := run_cases hacquired hleft
    rw [unobstructed_iff hended hcell, ← Option.or_eq_none_iff]
    rcases hcases with ⟨failure, hfailure, hresult⟩ | ⟨hnone, r, hresult⟩
    · rw [hfailure, hresult]
      exact ⟨fun ⟨r, h⟩ => (by cases h), fun h => (by cases h)⟩
    · exact ⟨fun _ => hnone, fun _ => ⟨r, hresult⟩⟩
  · intro r hr
    obtain ⟨σ, name, b, hacquire⟩ := exists_berth hacquired
    have hcell := Assoc.find?_singleton name ((job.workspace ws).fresh job.source)
    obtain ⟨tree, invocation, htree, hreport, rfl⟩ := run_eq_ok hr
    rw [hacquire] at htree
    cases htree
    have htells := tells_of_report b hcell hreport
    exact ⟨htells.success, htells.reason, htells.absent, htells.present⟩

end Whole

/-- A tool that leaves nothing to be read: a directory and files that are no UTF-8 in place of the artifacts. -/
def garbling : ToolRun where
  effect _ _ := some (.directory [("demoted.c", .directory []), ("memory_analysis.txt", .file [0xFF]),
    ("float_map.json", .file [0xFF])])
  stdout := []
  stderr := []
  ending := .exited 0
  duration := .finite false 0 0

/-- An analysis with this tool, of which every step is made to fail. -/
def garblingJob : Job :=
  ⟨[], "x.c", roomyHost, .present garbling, "id1", ⟨some "diff", some "report", some "float map", some "summary"⟩⟩

theorem run_returns_garbling :
    ∃ r, (garblingJob.run {} bareWorkspaces bareTree).result = .ok r ∧ r.success = true ∧ r.error = none := by
  have hended : ∀ run, garblingJob.tool = .present run → run.ending ≠ .timedOut := by
    intro run h
    cases h
    decide
  have hleft : Removable (garblingJob.workspace bareWorkspaces)
      (garblingJob.filesLeft {} bareWorkspaces bareTree) :=
    Or.inr (by decide)
  have hfree : Unobstructed roomyHost {} (garblingJob.workspace bareWorkspaces) garblingJob.tool :=
    ⟨fun h => (by cases h), fun _ _ => rfl, fun a => by cases a <;> decide⟩
  obtain ⟨hreturns, htells⟩ := run_returns (s := {}) (by decide) hended hleft
  obtain ⟨r, hr⟩ := hreturns.2 hfree
  have hsuccess : r.success = true := (htells r hr).1.2 ⟨garbling, rfl, rfl⟩
  exact ⟨r, hr, hsuccess, (htells r hr).2.1.1 hsuccess⟩

/-! ## A path without room for an artifact -/

/-- The path that leads upwards a number of times, which from the top leads nowhere else. -/
def upward (n : Nat) : FilePath := ⟨.here, List.replicate n ".."⟩

theorem upward_succ (n : Nat) : upward (n + 1) = (upward n).child ".." := by
  unfold upward FilePath.child
  rw [List.replicate_succ']

theorem size_upward (n : Nat) : (upward (n + 1)).content.size = 3 * n + 2 := by
  induction n with
  | zero => decide
  | succ n ih =>
    have hne : (upward (n + 1)).names ≠ [] := by simp [upward]
    have hdots : Content.size ".." = 2 := by decide
    rw [upward_succ, FilePath.size_child hne, ih, hdots]
    omega

theorem walk_upward (es : List (FileName × Node)) (n : Nat) (rest : List Content) :
    FileTree.walk (.directory es) [] (List.replicate n (Content.ofText "..") ++ rest) =
      FileTree.walk (.directory es) [] rest := by
  induction n with
  | zero => rfl
  | succ n ih =>
    rw [List.replicate_succ, List.cons_append, FileTree.walk]
    exact ih

/-- A tree without files. -/
def emptyTree : FileTree := ⟨.directory [], []⟩

/-- Its top. -/
def topSite : Site emptyTree := ⟨[], .directory [], rfl, rfl⟩

/-- Its top, as a directory of workspaces under a long path. -/
def upwardWorkspaces (n : Nat) : Workspaces := ⟨upward (n + 1), true⟩

theorem path_upward (n : Nat) :
    (garblingJob.workspace (upwardWorkspaces n)).path = (upward (n + 1)).child "ws_id1" :=
  path_workspace (upwardWorkspaces n) (by decide) garblingJob.name

theorem size_workspace_upward (n : Nat) :
    (garblingJob.workspace (upwardWorkspaces n)).path.content.size = 3 * n + 9 := by
  have hne : (upward (n + 1)).names ≠ [] := by simp [upward]
  have hname : Content.size "ws_id1" = 6 := by decide
  rw [path_upward, FilePath.size_child hne, size_upward, hname]

/-- The path of an entry is longer by a slash and the name. -/
theorem size_child_upward (n : Nat) (key : Content) :
    ((garblingJob.workspace (upwardWorkspaces n)).path.child key).content.size = 3 * n + 10 + key.size := by
  have hne : (garblingJob.workspace (upwardWorkspaces n)).path.names ≠ [] := by
    rw [path_upward]
    simp [FilePath.child]
  rw [FilePath.size_child hne, size_workspace_upward]
  omega

theorem berth_upward {n : Nat} (hn : 3 * n + 9 ≤ FileTree.maxPath) :
    Berth topSite (garblingJob.workspace (upwardWorkspaces n)) "ws_id1" where
  free := rfl
  located := by
    rw [FileTree.locate, if_neg (by rw [size_workspace_upward]; omega), path_upward]
    exact walk_upward [] (n + 1) [Content.ofText "ws_id1"]

theorem acquire_upward {n : Nat} (hn : 3 * n + 18 ≤ FileTree.maxPath) :
    (garblingJob.workspace (upwardWorkspaces n)).acquire garblingJob.source emptyTree =
      (topSite.fill [("ws_id1", (garblingJob.workspace (upwardWorkspaces n)).fresh garblingJob.source)],
        .ok (garblingJob.workspace (upwardWorkspaces n))) := by
  have hname : (garblingJob.workspace (upwardWorkspaces n)).sourceName = Content.ofText "source.c" := by
    change Submission.sourceName "x.c" = _
    decide
  have hfits : (garblingJob.workspace (upwardWorkspaces n)).fits = true := by
    have hsize : Content.size "source.c" = 8 := by decide
    unfold Workspace.fits Workspace.sourcePath
    rw [hname, size_child_upward, hsize]
    simp only [Bool.and_eq_true, decide_eq_true_eq]
    exact ⟨by omega, by decide⟩
  have hpath : Failure.ofPath? (garblingJob.workspace (upwardWorkspaces n)).path = none := by
    rw [path_upward, ofPath?_child]
    · exact Content.isTaken_ofText (by decide)
    · rw [ofPath?_eq_none]
      intro name hname
      rw [List.eq_of_mem_replicate hname]
      exact Content.isTaken_ofText (by decide)
  have hsource : Failure.ofPath? (garblingJob.workspace (upwardWorkspaces n)).sourcePath = none := by
    unfold Workspace.sourcePath
    rw [ofPath?_child hpath, hname]
    exact Content.isTaken_ofText (by decide)
  have hacquire := (berth_upward (n := n) (by omega)).acquire_fill hpath
    (show find? _ [] = none from rfl) garblingJob.source
  rw [Site.fill_nil, hsource] at hacquire
  simp only [if_pos hfits] at hacquire
  exact hacquire

/-- **The path of an artifact can break an analysis.** A workspace can be made whose path leaves room for the name
of the source, but not for the longest name of an artifact. -/
theorem run_fails_long_path :
    ¬∀ (job : Job) (s : Settings) (ws : Workspaces) (t : FileTree),
      ((job.workspace ws).acquire job.source t).2 = .ok (job.workspace ws) →
      (∀ run, job.tool = .present run → run.ending ≠ .timedOut) →
      Removable (job.workspace ws) (job.filesLeft s ws t) →
      ∃ r, (job.run s ws t).result = .ok r := by
  intro h
  obtain ⟨n, hn⟩ : ∃ n, n = 1356 := ⟨_, rfl⟩
  have hmax : FileTree.maxPath = 4095 := rfl
  have hacquire := acquire_upward (n := n) (by omega)
  have hacquired := congrArg Prod.snd hacquire
  have hleft : Removable (garblingJob.workspace (upwardWorkspaces n))
      (garblingJob.filesLeft {} (upwardWorkspaces n) emptyTree) := by
    have b := berth_upward (n := n) (by omega)
    rw [filesLeft_fill b hacquire, removable_fill b, Assoc.find?_assign_self]
    rfl
  obtain ⟨r, hr⟩ := h garblingJob {} (upwardWorkspaces n) emptyTree hacquired (fun run hrun => by
    cases hrun
    decide) hleft
  obtain ⟨cell, hcell, ⟨failure, -, hresult⟩ | ⟨hnone, -⟩⟩ := run_cases (s := {}) hacquired hleft
  · rw [hr] at hresult
    cases hresult
  · -- the report has the longest name
    have hlong := (lookupFailure?_eq_none hcell).1 (Option.or_eq_none_iff.1 hnone).2 .memoryReport
    have hsize : Content.size Artifact.memoryReport.fileName = 19 := by decide
    rw [Artifact.path, size_child_upward, hsize] at hlong
    omega

end Demotion.Analysis
