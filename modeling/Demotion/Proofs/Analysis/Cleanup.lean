import Demotion.Analysis.Run
import Demotion.Proofs.Tool.Output
import Demotion.Proofs.Workspace.Acquire

/-!
# What an analysis leaves behind

An analysis that does not retain its workspace leaves the files as they were, however it ends. What keeps it from
that is a tool that leaves something in place of its workspace that cannot be removed, such as a file, or a name
of the source that the system does not take at all.

* `finish_fill`: an analysis ends with the workspace removed, as far as it can be.
* `finish_left`: what fails if something stays.
* `run_restores`: **the files after an analysis, and the failure it ends with if they are not as before.**
-/

namespace Demotion.Analysis

open Assoc (find? assign)
open Captured (ofBytes_cases)

/-! ## Work in the workspace -/

section Work

variable {t : FileTree} {σ : Site t} {w : Workspace} {name : FileName} (b : Berth σ w name)
  (job : Job) (s : Settings)

include b

omit b in
theorem work_fst (tree : FileTree) : (job.work s w tree).tree = (job.tool.run job.host s w tree).1 := by
  unfold Job.work
  simp only
  split <;> rfl

omit b in
/-- A failure of the tool is that of the work, and otherwise one of gathering. -/
theorem work_result (tree : FileTree) :
    (job.work s w tree).result =
      ((job.tool.run job.host s w tree).2.report s w job.tool.duration).bind fun invocation =>
        (job.gather w (job.tool.run job.host s w tree).1 invocation).1 := by
  unfold Job.work
  simp only
  split <;> rename_i h <;> rw [h] <;> rfl

theorem work_tree (more : List (FileName × Node)) :
    (job.work s w (σ.fill more)).tree =
      σ.fill (assign name (job.tool.cellAfter w.sourceFile (find? name more)) more) := by
  rw [work_fst, b.run_tree]

omit b in
theorem finish_tree (worked : Finished) :
    (job.finish s w worked).tree = (w.release s.retainWorkspaces worked.tree).1 := by
  unfold Job.finish
  simp only
  split <;> rfl

omit b in
/-- A failure of the work is reported, and otherwise one of the release. -/
theorem finish_result (worked : Finished) :
    (job.finish s w worked).result =
      match worked.result, (w.release s.retainWorkspaces worked.tree).2.result w with
      | .ok r, .ok () => .ok r
      | .ok _, .error e => .error (.workspace e)
      | .error failure, _ => .error failure := by
  unfold Job.finish
  simp only
  split <;> simp_all

/-- **The workspace is removed whatever the work was**, as far as what the tool left can be removed. -/
theorem finish_fill (hretain : s.retainWorkspaces = false) (source : List UInt8) :
    (job.finish s w (job.work s w (σ.fill [(name, w.fresh source)]))).tree =
      σ.fill (((w.cellReleased false (job.tool.cellAfter w.sourceFile (some (w.fresh source)))).map
        fun n => (name, n)).toList) := by
  rw [finish_tree, work_tree b, Assoc.find?_singleton, b.release_fill, Assoc.find?_assign_self, hretain,
    Assoc.assign_singleton]
  cases job.tool.cellAfter w.sourceFile (some (w.fresh source)) with
  | none => rfl
  | some n => exact congrArg σ.fill (Assoc.assign_singleton _ _)

end Work

/-! ## What is left in place of the workspace -/

/-- The tool is run in the workspace of a job and leaves a `cell` in its place, of which `node` stays when it is
removed, because of the error `e`. -/
structure Leaves (job : Job) (w : Workspace) (t : FileTree) (run : ToolRun) (cell node : Node)
    (e : FileError) : Prop where
  tool : job.tool = .present run
  acquired : (w.acquire job.source t).2 = .ok w
  effect : run.effect w.sourceFile (w.fresh job.source) = some cell
  stays : cell.stays? w.path = some (node, e)

/-- The failure of a run that was started: the time limit, or a limit up to which no output can be read. -/
def runFailure? (host : Host) (s : Settings) (run : ToolRun) : Option Failure :=
  match run.ending with
  | .timedOut => some (.timeout s.toolTimeout)
  | .exited _ =>
    match ReadSize.check host.memory (s.outputLimit + 1) with
    | .error e => some (.outputLimit e)
    | .ok () => none

/-- The failure of looking for artifacts: the first whose path cannot be looked up. -/
def lookupFailure? (w : Workspace) (cell : Option Node) : Option Failure :=
  (Artifact.all.findSome? (Artifact.barrier? w cell)).map .file

/-- What is made of the entry that the tool left, after a report on it. -/
def Job.gathered (job : Job) (w : Workspace) (cell : Option Node) (invocation : Invocation) :
    Except Failure Result :=
  match lookupFailure? w cell with
  | some failure => .error failure
  | none => .ok (job.aggregate (Artifacts.ofCell w cell) invocation).1

/-- The failure of an analysis whose tool left something that stays. That it is not removed counts only if
nothing failed before. -/
def leftFailure (host : Host) (s : Settings) (w : Workspace) (run : ToolRun) (cell : Node) (e : FileError) :
    Failure :=
  ((runFailure? host s run).or (lookupFailure? w (some cell))).getD (.workspace (.remove w.path e))

theorem report_cases (host : Host) (s : Settings) (w : Workspace) (run : ToolRun) (duration : Binary64) :
    (∃ failure, runFailure? host s run = some failure ∧
        (Tool.outcome host.memory s.outputLimit run).report s w duration = .error failure) ∨
      runFailure? host s run = none ∧
        ∃ invocation, (Tool.outcome host.memory s.outputLimit run).report s w duration = .ok invocation := by
  unfold Tool.outcome runFailure?
  cases run.ending with
  | timedOut => exact Or.inl ⟨_, rfl, rfl⟩
  | exited status =>
    rcases ofBytes_cases host.memory s.outputLimit run.stdout with ⟨e, he, hout⟩ | ⟨hok, out, hout⟩
    · simp only [he, hout]
      exact Or.inl ⟨_, rfl, rfl⟩
    · rcases ofBytes_cases host.memory s.outputLimit run.stderr with ⟨e, he, -⟩ | ⟨-, err, herr⟩
      · rw [hok] at he; cases he
      · simp only [hok, hout, herr]
        exact Or.inr ⟨trivial, _, rfl⟩

section Left

variable {t : FileTree} {σ : Site t} {w : Workspace} {name : FileName} (b : Berth σ w name)

include b

/-- What is gathered is told by the entry of the workspace. -/
theorem gather_fill (job : Job) (more : List (FileName × Node)) (invocation : Invocation) :
    (job.gather w (σ.fill more) invocation).1 = job.gathered w (find? name more) invocation := by
  have hartifacts := b.artifacts_fill more
  unfold Job.gather Job.gathered lookupFailure?
  simp only [hartifacts]
  cases Artifact.all.findSome? (Artifact.barrier? w (find? name more)) with
  | some e => rfl
  | none => rfl

/-- The artifacts are gathered, whatever they are, unless one cannot be looked up. -/
theorem gather_cases (job : Job) (more : List (FileName × Node)) (invocation : Invocation) :
    (∃ failure, lookupFailure? w (find? name more) = some failure ∧
        (job.gather w (σ.fill more) invocation).1 = .error failure) ∨
      lookupFailure? w (find? name more) = none ∧ ∃ r, (job.gather w (σ.fill more) invocation).1 = .ok r := by
  rw [gather_fill b]
  unfold Job.gathered
  cases lookupFailure? w (find? name more) with
  | some failure => exact Or.inl ⟨failure, rfl, rfl⟩
  | none => exact Or.inr ⟨rfl, _, rfl⟩

omit b in
theorem Leaves.cellAfter {job : Job} {run : ToolRun} {cell node : Node} {e : FileError}
    (h : Leaves job w t run cell node e) :
    job.tool.cellAfter w.sourceFile (some (w.fresh job.source)) = some cell := by
  rw [h.tool]
  exact h.effect

/-- **What fails if something stays**: what failed first, and that it is not removed if nothing else did. -/
theorem finish_left {job : Job} {s : Settings} (hretain : s.retainWorkspaces = false) {run : ToolRun}
    {cell node : Node} {e : FileError} (h : Leaves job w t run cell node e) :
    (job.finish s w (job.work s w (σ.fill [(name, w.fresh job.source)]))).result =
      .error (leftFailure job.host s w run cell e) := by
  have hfind := Assoc.find?_singleton name (w.fresh job.source)
  have htree : (job.tool.run job.host s w (σ.fill [(name, w.fresh job.source)])).1 = σ.fill [(name, cell)] := by
    rw [b.run_tree, hfind, h.cellAfter, Assoc.assign_singleton]
    rfl
  have hout : (job.tool.run job.host s w (σ.fill [(name, w.fresh job.source)])).2 =
      Tool.outcome job.host.memory s.outputLimit run := by
    rw [h.tool]
    exact b.run_present hfind run
  -- that something stays is found out at the release
  have hrelease : (w.release s.retainWorkspaces (job.work s w (σ.fill [(name, w.fresh job.source)])).tree).2 =
      .refused e := by
    rw [work_tree b, hfind, b.release_fill, Assoc.find?_assign_self, h.cellAfter, hretain]
    unfold Workspace.releaseOf
    simp [h.stays]
  rw [finish_result, hrelease]
  unfold Job.work leftFailure
  simp only [htree, hout]
  rcases report_cases job.host s w run job.tool.duration with ⟨failure, hf, hreport⟩ | ⟨hf, invocation, hreport⟩
  · rw [hf, hreport]; rfl
  · have hcell := Assoc.find?_singleton name cell
    rw [hf, hreport]
    rcases gather_cases b job [(name, cell)] invocation with ⟨failure, hl, hgather⟩ | ⟨hl, r, hgather⟩
    · rw [hcell] at hl
      simp only [hl, hgather]; rfl
    · rw [hcell] at hl
      simp only [hl, hgather]; rfl

end Left

/-! ## Whole analyses -/

theorem run_refused {job : Job} {s : Settings} {ws : Workspaces} {w : Workspace} {t tree : FileTree}
    {failure : Failure} (hw : ws.workspace job.id job.name = w)
    (h : w.acquire job.source t = (tree, .error failure)) :
    job.run s ws t =
      ⟨tree, .error failure, job.startLog ++ Workspace.acquireLog job.source (.error failure)⟩ := by
  unfold Job.run
  simp only [hw, h]

theorem run_acquired {job : Job} {s : Settings} {ws : Workspaces} {w : Workspace} {t tree : FileTree}
    (hw : ws.workspace job.id job.name = w) (h : w.acquire job.source t = (tree, .ok w)) :
    (job.run s ws t).tree = (job.finish s w (job.work s w tree)).tree ∧
      (job.run s ws t).result = (job.finish s w (job.work s w tree)).result := by
  unfold Job.run
  simp only [hw, h, and_self]

/-- Only a tool that is run leaves something in place of a workspace that stays. -/
theorem exists_leaves {job : Job} {w : Workspace} {t : FileTree} (hok : (w.acquire job.source t).2 = .ok w)
    {node : Node}
    (h : w.cellReleased false (job.tool.cellAfter w.sourceFile (some (w.fresh job.source))) = some node) :
    ∃ run cell e, Leaves job w t run cell node e := by
  obtain ⟨cell, hcell, hstays⟩ := Option.bind_eq_some_iff.1 h
  obtain ⟨⟨left, e⟩, hleft, hnode⟩ := Option.map_eq_some_iff.1 hstays
  obtain rfl : left = node := hnode
  cases htool : job.tool with
  | absent =>
    -- the workspace as it was made has nothing in it that stays
    rw [htool] at hcell
    obtain rfl : w.fresh job.source = cell := Option.some.inj hcell
    cases hleft
  | present run =>
    rw [htool] at hcell
    exact ⟨run, cell, e, htool, hok, hcell, hleft⟩

section Whole

variable (job : Job) (s : Settings) (ws : Workspaces) (t : FileTree) (hretain : s.retainWorkspaces = false)

include hretain

/-- An analysis whose tool leaves nothing that stays. -/
theorem run_clean (htaken : (Submission.sourceName job.name).IsTaken)
    (hno : ∀ run cell node e, ¬Leaves job (ws.workspace job.id job.name) t run cell node e) :
    (job.run s ws t).tree = t := by
  generalize hw : ws.workspace job.id job.name = w at hno
  have htaken' : w.sourceName.IsTaken := by rw [← hw]; exact htaken
  have hnames := exists_names_workspace ws job.id job.name
  rw [hw] at hnames
  rcases Workspace.acquire_outcomes hnames job.source t with
    ⟨⟨failure, h⟩, -⟩ | ⟨σ, name, b, -, ⟨_, -, huntaken, -⟩ | ⟨-, h⟩⟩
  · -- no workspace was made, and no tool run
    exact congrArg Finished.tree (run_refused hw h)
  · exact absurd htaken' huntaken
  · rw [(run_acquired hw h).1, finish_fill b job s hretain]
    cases hleft : w.cellReleased false (job.tool.cellAfter w.sourceFile (some (w.fresh job.source))) with
    | none => exact σ.fill_nil
    | some node =>
      obtain ⟨run, cell, e, hleaves⟩ := exists_leaves (t := t) (by rw [h]) hleft
      exact absurd hleaves (hno run cell node e)

/-- An analysis whose tool leaves something that stays. -/
theorem run_left {run : ToolRun} {cell node : Node} {e : FileError}
    (hleaves : Leaves job (ws.workspace job.id job.name) t run cell node e) :
    ∃ place, t.locate (ws.workspace job.id job.name).path = .ok place ∧
      t.AddedAt place node (job.run s ws t).tree ∧
      (job.run s ws t).result =
        .error (leftFailure job.host s (ws.workspace job.id job.name) run cell e) := by
  generalize hw : ws.workspace job.id job.name = w at hleaves ⊢
  have hok := hleaves.acquired
  have hnames := exists_names_workspace ws job.id job.name
  rw [hw] at hnames
  rcases Workspace.acquire_outcomes hnames job.source t with
    ⟨⟨failure, h⟩, -⟩ | ⟨σ, name, b, -, ⟨_, -, -, h⟩ | ⟨-, h⟩⟩
  · rw [h] at hok
    cases hok
  · rw [h] at hok
    cases hok
  · obtain ⟨htree, hresult⟩ := run_acquired (s := s) hw h
    have hreleased :
        w.cellReleased false (job.tool.cellAfter w.sourceFile (some (w.fresh job.source))) = some node := by
      rw [hleaves.cellAfter]
      exact congrArg (Option.map (·.1)) hleaves.stays
    refine ⟨_, b.located, ?_, hresult.trans (finish_left b hretain hleaves)⟩
    rw [htree, finish_fill b job s hretain, hreleased]
    exact b.addedAt node

omit hretain in
/-- An analysis of a source whose name the system does not take. -/
theorem run_untaken (huntaken : ¬(Submission.sourceName job.name).IsTaken) :
    (∃ failure, (job.run s ws t).result = .error failure) ∧
      ((job.run s ws t).tree ≠ t ↔ (ws.workspace job.id job.name).CanBeMade t) ∧
      ((job.run s ws t).tree ≠ t → ∃ place, t.locate (ws.workspace job.id job.name).path = .ok place ∧
        t.AddedAt place (.directory []) (job.run s ws t).tree) := by
  generalize hw : ws.workspace job.id job.name = w
  have huntaken' : ¬w.sourceName.IsTaken := by rw [← hw]; exact huntaken
  have hnames := exists_names_workspace ws job.id job.name
  rw [hw] at hnames
  rcases Workspace.acquire_outcomes hnames job.source t with
    ⟨⟨failure, h⟩, htaken⟩ | ⟨σ, name, b, hmake, ⟨failure, -, -, h⟩ | ⟨htaken, -⟩⟩
  · rw [run_refused hw h]
    refine ⟨⟨failure, rfl⟩, ⟨fun hne => absurd rfl hne, fun hmake => ?_⟩, fun hne => absurd rfl hne⟩
    exact absurd (htaken hmake) huntaken'
  · rw [run_refused hw h]
    have hadded := b.addedAt (.directory [])
    exact ⟨⟨failure, rfl⟩, ⟨fun _ => hmake, fun _ => hadded.ne⟩, fun _ => ⟨_, b.located, hadded⟩⟩
  · exact absurd htaken huntaken'

/-- **What an analysis leaves behind.** Without retained workspaces the files are as before, unless the tool left
something in place of its workspace that stays when it is removed. Then what stays is the only difference, and the
analysis fails: with what failed first, and because something stays if nothing else did. A name of the source that
the system does not take fails the analysis as well, and leaves an empty directory exactly if that can be made;
it takes that name if it takes the submitted one. -/
theorem run_restores :
    (job.name.IsTaken → (Submission.sourceName job.name).IsTaken) ∧
      ((Submission.sourceName job.name).IsTaken →
        (∀ run cell node e, ¬Leaves job (ws.workspace job.id job.name) t run cell node e) →
          (job.run s ws t).tree = t) ∧
      (∀ run cell node e, Leaves job (ws.workspace job.id job.name) t run cell node e →
        ∃ place, t.locate (ws.workspace job.id job.name).path = .ok place ∧
          t.AddedAt place node (job.run s ws t).tree ∧
          (job.run s ws t).result =
            .error (leftFailure job.host s (ws.workspace job.id job.name) run cell e)) ∧
      (¬(Submission.sourceName job.name).IsTaken →
        (∃ failure, (job.run s ws t).result = .error failure) ∧
          ((job.run s ws t).tree ≠ t ↔ (ws.workspace job.id job.name).CanBeMade t) ∧
          ((job.run s ws t).tree ≠ t → ∃ place, t.locate (ws.workspace job.id job.name).path = .ok place ∧
            t.AddedAt place (.directory []) (job.run s ws t).tree)) :=
  ⟨isTaken_sourceName, run_clean job s ws t hretain, fun _ _ _ _ => run_left job s ws t hretain,
    run_untaken job s ws t⟩

end Whole

/-- A host with room enough. -/
def roomyHost : Host := ⟨1000, 0x1000000000, true⟩

/-- A tool that puts an empty file in place of its workspace. -/
def replacing : ToolRun where
  effect _ _ := some (.file [])
  stdout := []
  stderr := []
  ending := .exited 0
  duration := .finite false 0 0

/-- An analysis with this tool. -/
def replacingJob : Job := ⟨[], "x.c", roomyHost, .present replacing, "id1", .none⟩

/-- A tree with nothing but a directory of workspaces. -/
def bareTree : FileTree := ⟨.directory [("workspaces", .directory [])], []⟩

/-- The workspaces in that directory. -/
def bareWorkspaces : Workspaces := ⟨⟨.here, ["workspaces"]⟩, true⟩

theorem leaves_replacing :
    Leaves replacingJob (bareWorkspaces.workspace replacingJob.id replacingJob.name) bareTree replacing (.file [])
      (.file []) ⟨.notDirectory, .directory (bareWorkspaces.workspace "id1" "x.c").path⟩ :=
  ⟨rfl, by decide, rfl, rfl⟩

/-- With the limits as they are by default it is the file that fails the analysis. -/
theorem run_restores_replacing :
    ∃ place, bareTree.AddedAt place (.file []) (replacingJob.run {} bareWorkspaces bareTree).tree ∧
      (replacingJob.run {} bareWorkspaces bareTree).result =
        .error (.workspace (.remove (bareWorkspaces.workspace "id1" "x.c").path
          ⟨.notDirectory, .directory (bareWorkspaces.workspace "id1" "x.c").path⟩)) := by
  have hfailure : leftFailure roomyHost {} (bareWorkspaces.workspace "id1" "x.c") replacing (.file [])
      ⟨.notDirectory, .directory (bareWorkspaces.workspace "id1" "x.c").path⟩ =
      .workspace (.remove (bareWorkspaces.workspace "id1" "x.c").path
        ⟨.notDirectory, .directory (bareWorkspaces.workspace "id1" "x.c").path⟩) := by decide
  obtain ⟨place, -, hadded, hresult⟩ :=
    (run_restores replacingJob {} bareWorkspaces bareTree rfl).2.2.1 _ _ _ _ leaves_replacing
  exact ⟨place, hadded, hresult.trans (congrArg Except.error hfailure)⟩

/-- **That the file is not removed need not be what fails**, also if the tool was not stopped: under a limit
that is too large for output to be read, that is what fails. -/
theorem run_replaced_not_workspace :
    ¬∀ (job : Job) (s : Settings) (ws : Workspaces) (t : FileTree), s.retainWorkspaces = false →
      .char '\x00' ∉ job.name → ws = { Workspaces.ofSettings s with ready := true } →
      ∀ run c e, Leaves job (ws.workspace job.id job.name) t run (.file c) (.file c) e →
        run.ending ≠ .timedOut → ∃ e, (job.run s ws t).result = .error (.workspace e) := by
  intro h
  let s : Settings := { outputLimit := 2 ^ 63 - 1, workspaceRoot := "workspaces" }
  obtain ⟨e, he⟩ := h replacingJob s bareWorkspaces bareTree rfl (by decide) (by decide) _ _ _ leaves_replacing
    (by decide)
  obtain ⟨-, -, -, hresult⟩ := run_left replacingJob s bareWorkspaces bareTree rfl leaves_replacing
  rw [he] at hresult
  have hlimit : runFailure? roomyHost s replacing = some (.outputLimit .notIndex) := by decide
  unfold leftFailure at hresult
  rw [show replacingJob.host = roomyHost from rfl, hlimit] at hresult
  cases hresult

end Demotion.Analysis
