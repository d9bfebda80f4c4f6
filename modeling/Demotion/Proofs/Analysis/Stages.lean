import Demotion.Proofs.Analysis.Cleanup

/-!
# The stages of an analysis

An analysis takes four stages: it acquires its workspace, invokes the tool, makes a result of the artifacts,
and releases the workspace. Between two stages other analyses may be at work on the same files.

* `Job.advance`: one stage. A failed invocation is followed by the release.
* `advance_alone`: **the stages one right after the other are the analysis.**
* `advance_fill`: what a stage does to the entry of its own workspace, and that it does nothing else.
-/

namespace Demotion.Analysis

open Assoc (find? assign)

/-- What an analysis gave: the report on the tool, the artifacts, what became of the workspace, and the
result. What was not come to is absent. -/
structure Ended where
  report : Option (Except Failure Invocation)
  artifacts : Option (Except FileError Artifacts)
  release : Option Workspace.Release
  result : Except Failure Result

/-- How far an analysis has come. -/
inductive Progress where
  | waiting
  | acquired
  | invoked (report : Except Failure Invocation)
  | gathered (invocation : Invocation) (artifacts : Except FileError Artifacts) (worked : Except Failure Result)
  | ended (e : Ended)

/-- The result of an analysis that has ended. -/
def Progress.result? : Progress → Option (Except Failure Result)
  | .ended e => some e.result
  | _ => none

/-- A workspace was given up without a failure. -/
def Progress.Released (w : Workspace) (p : Progress) : Prop :=
  ∃ e release, p = .ended e ∧ e.release = some release ∧ release.result w = .ok ()

namespace Job

/-- The workspace of a job. -/
def workspace (job : Job) (ws : Workspaces) : Workspace :=
  ws.workspace job.id job.name

/-- The result after a release: a failure before it counts, and otherwise one of the release. -/
def closing (w : Workspace) (worked : Except Failure Result) (release : Workspace.Release) :
    Except Failure Result :=
  match worked, release.result w with
  | .ok r, .ok () => .ok r
  | .ok _, .error e => .error (.workspace e)
  | .error failure, _ => .error failure

/-- The last stage, after work that gave a result or failed. -/
def conclude (job : Job) (s : Settings) (ws : Workspaces) (report : Except Failure Invocation)
    (artifacts : Option (Except FileError Artifacts)) (worked : Except Failure Result) (t : FileTree) :
    FileTree × Progress :=
  let w := job.workspace ws
  let (tree, release) := w.release s.retainWorkspaces t
  (tree, .ended ⟨some report, artifacts, some release, closing w worked release⟩)

/-- One stage of an analysis. -/
def advance (job : Job) (s : Settings) (ws : Workspaces) (t : FileTree) (p : Progress) : FileTree × Progress :=
  let w := job.workspace ws
  match p with
  | .waiting =>
    match w.acquire job.source t with
    | (tree, .ok _) => (tree, .acquired)
    | (tree, .error failure) => (tree, .ended ⟨none, none, none, .error failure⟩)
  | .acquired =>
    let (tree, outcome) := job.tool.run job.host s w t
    (tree, .invoked (outcome.report s w job.tool.duration))
  | .invoked (.ok invocation) =>
    (t, .gathered invocation (Artifacts.collect w t) (job.gather w t invocation).1)
  | .invoked (.error failure) => job.conclude s ws (.error failure) none (.error failure) t
  | .gathered invocation artifacts worked => job.conclude s ws (.ok invocation) (some artifacts) worked t
  | .ended e => (t, .ended e)

/-- The files and the progress of an analysis that is alone, after a number of stages. -/
def alone (job : Job) (s : Settings) (ws : Workspaces) (t : FileTree) : Nat → FileTree × Progress
  | 0 => (t, .waiting)
  | n + 1 => job.advance s ws (job.alone s ws t n).1 (job.alone s ws t n).2

end Job

/-! ## Alone -/

variable (job : Job) (s : Settings) (ws : Workspaces) (t : FileTree)

theorem advance_ended {e : Ended} : job.advance s ws t (.ended e) = (t, .ended e) := rfl

theorem alone_of_ended {n : Nat} {tree : FileTree} {e : Ended} (h : job.alone s ws t n = (tree, .ended e)) :
    ∀ m, n ≤ m → job.alone s ws t m = (tree, .ended e) := by
  intro m hm
  induction m, hm using Nat.le_induction with
  | base => exact h
  | succ m _ ih => rw [Job.alone, ih, advance_ended]

/-- The last two stages after the tool was invoked. -/
theorem advance_invoked {report : Except Failure Invocation} {tree : FileTree} {n : Nat}
    (h : job.alone s ws t n = (tree, .invoked report)) :
    ∃ e : Ended, job.alone s ws t (n + 2) =
        (((job.workspace ws).release s.retainWorkspaces tree).1, .ended e) ∧
      e.result = Job.closing (job.workspace ws)
        (report.bind fun invocation => (job.gather (job.workspace ws) tree invocation).1)
        ((job.workspace ws).release s.retainWorkspaces tree).2 := by
  -- after a failed invocation nothing is gathered, so that the last of the two turns does nothing
  cases report with
  | error failure =>
    have hend : job.alone s ws t (n + 1) = job.conclude s ws (.error failure) none (.error failure) tree := by
      rw [Job.alone, h]; rfl
    exact ⟨_, alone_of_ended job s ws t hend (n + 2) (Nat.le_succ _), rfl⟩
  | ok invocation =>
    have hgathered : job.alone s ws t (n + 1) = (tree, .gathered invocation
        (Artifacts.collect (job.workspace ws) tree) (job.gather (job.workspace ws) tree invocation).1) := by
      rw [Job.alone, h]; rfl
    have hend : job.alone s ws t (n + 2) = job.conclude s ws (.ok invocation)
        (some (Artifacts.collect (job.workspace ws) tree))
        (job.gather (job.workspace ws) tree invocation).1 tree := by
      rw [Job.alone, hgathered]; rfl
    exact ⟨_, hend, rfl⟩

/-- **The stages one right after the other are the analysis.** -/
theorem advance_alone : ∃ e : Ended, job.alone s ws t 4 = ((job.run s ws t).tree, .ended e) ∧
    e.result = (job.run s ws t).result := by
  rcases hacquire : (job.workspace ws).acquire job.source t with ⟨tree, failure | w⟩
  · have hend : job.alone s ws t 1 = (tree, .ended ⟨none, none, none, .error failure⟩) := by
      rw [Job.alone, Job.alone, Job.advance, hacquire]
    rw [run_refused rfl hacquire]
    exact ⟨_, alone_of_ended job s ws t hend 4 (by decide), rfl⟩
  · obtain rfl := acquire_eq hacquire
    obtain ⟨htree, hresult⟩ := run_acquired (s := s) rfl hacquire
    have hinvoked : job.alone s ws t 2 = ((job.tool.run job.host s (job.workspace ws) tree).1,
        .invoked ((job.tool.run job.host s (job.workspace ws) tree).2.report s (job.workspace ws)
          job.tool.duration)) := by
      have hacquired : job.alone s ws t 1 = (tree, .acquired) := by
        rw [Job.alone, Job.alone, Job.advance, hacquire]
      rw [Job.alone, hacquired]
      rfl
    obtain ⟨e, he, hclosing⟩ := advance_invoked job s ws t hinvoked
    refine ⟨e, ?_, ?_⟩
    · rw [he, htree, finish_tree, work_fst]
      rfl
    · rw [hclosing, hresult, finish_result, work_fst, work_result]
      rfl

/-! ## Among others -/

/-- The job can be done in a directory: its workspace stands there at a free name, and can be made. -/
structure Placed {t : FileTree} (σ : Site t) (job : Job) (ws : Workspaces) (name : FileName) : Prop where
  berth : Berth σ (job.workspace ws) name
  path : Failure.ofPath? (job.workspace ws).path = none
  sourcePath : Failure.ofPath? (job.workspace ws).sourcePath = none
  fits : (job.workspace ws).fits = true

/-- The entry of the workspace after a stage. -/
def Job.cellNext (job : Job) (s : Settings) (ws : Workspaces) (cell : Option Node) : Progress → Option Node
  | .waiting => some ((job.workspace ws).fresh job.source)
  | .acquired => job.tool.cellAfter (job.workspace ws).sourceFile cell
  | .invoked (.ok _) => cell
  | .invoked (.error _) => (job.workspace ws).cellReleased s.retainWorkspaces cell
  | .gathered _ _ _ => (job.workspace ws).cellReleased s.retainWorkspaces cell
  | .ended _ => cell

section Placed

variable {t : FileTree} {σ : Site t} {job : Job} {ws : Workspaces} {name : FileName} (h : Placed σ job ws name)
  {s : Settings} {p : Progress} {more more' : List (FileName × Node)}

include h

/-- The first stage makes the workspace. -/
theorem acquire_placed (hcell : find? name more = none) :
    (job.workspace ws).acquire job.source (σ.fill more) =
      (σ.fill (assign name (some ((job.workspace ws).fresh job.source)) more), .ok (job.workspace ws)) := by
  rw [h.berth.acquire_fill h.path hcell, h.sourcePath]
  exact if_pos h.fits

/-- The last stage, told by the entry of the workspace. -/
theorem conclude_fill (report : Except Failure Invocation) (artifacts : Option (Except FileError Artifacts))
    (worked : Except Failure Result) (more : List (FileName × Node)) :
    job.conclude s ws report artifacts worked (σ.fill more) =
      (σ.fill (assign name ((job.workspace ws).cellReleased s.retainWorkspaces (find? name more)) more),
        .ended ⟨some report, artifacts,
          some ((job.workspace ws).releaseOf s.retainWorkspaces (find? name more)),
          Job.closing (job.workspace ws) worked
            ((job.workspace ws).releaseOf s.retainWorkspaces (find? name more))⟩) := by
  unfold Job.conclude
  simp only [h.berth.release_fill]

/-- **A stage changes the entry of its own workspace and nothing else.** -/
theorem advance_tree (hp : p = .waiting → find? name more = none) :
    (job.advance s ws (σ.fill more) p).1 = σ.fill (assign name (job.cellNext s ws (find? name more) p) more) := by
  have hsame : σ.fill (assign name (find? name more) more) = σ.fill more := by rw [Assoc.assign_of_find? rfl]
  cases p with
  | waiting =>
    rw [Job.advance, acquire_placed h (hp rfl)]
    rfl
  | acquired => exact h.berth.run_tree job.tool more
  | invoked report =>
    cases report with
    | ok invocation => exact hsame.symm
    | error failure => exact congrArg Prod.fst (conclude_fill h _ _ _ more)
  | gathered invocation artifacts worked => exact congrArg Prod.fst (conclude_fill h _ _ _ more)
  | ended e => exact hsame.symm

/-- **What a stage gives depends on the entry of its own workspace only**, where a tool that cannot be started
is not looked for in entries that differ. -/
theorem advance_congr (hp : p = .waiting → find? name more = none) (hcell : find? name more = find? name more')
    (hlook : job.tool = .absent → ∀ q ∈ Tool.lookups s.clangPath (σ.place ++ [name]),
      ∀ key rest, q = σ.place ++ key :: rest → find? key more = find? key more') :
    (job.advance s ws (σ.fill more) p).2 = (job.advance s ws (σ.fill more') p).2 := by
  have hrelease : ∀ report artifacts worked, (job.conclude s ws report artifacts worked (σ.fill more)).2 =
      (job.conclude s ws report artifacts worked (σ.fill more')).2 := by
    intro report artifacts worked
    rw [conclude_fill h, conclude_fill h, hcell]
  cases p with
  | waiting =>
    rw [Job.advance, Job.advance, acquire_placed h (hp rfl), acquire_placed h (hcell ▸ hp rfl)]
  | acquired =>
    have hrun : (job.tool.run job.host s (job.workspace ws) (σ.fill more)).2 =
        (job.tool.run job.host s (job.workspace ws) (σ.fill more')).2 := h.berth.run_congr job.tool hcell hlook
    exact congrArg (fun o : Tool.Outcome => Progress.invoked (o.report s (job.workspace ws) job.tool.duration))
      hrun
  | invoked report =>
    cases report with
    | ok invocation =>
      have hfind := h.berth.find_congr hcell
      simp only [Job.advance, Artifacts.collect, Job.gather, hfind]
    | error failure => exact hrelease _ _ _
  | gathered invocation artifacts worked => exact hrelease _ _ _
  | ended e => rfl

/-- A stage of its own takes an analysis out of waiting. -/
theorem advance_ne_waiting (hp : p = .waiting → find? name more = none) :
    (job.advance s ws (σ.fill more) p).2 ≠ .waiting := by
  cases p with
  | waiting =>
    rw [Job.advance, acquire_placed h (hp rfl)]
    intro hwait
    cases hwait
  | acquired => intro hwait; cases hwait
  | invoked report => cases report <;> (intro hwait; cases hwait)
  | gathered invocation artifacts worked => intro hwait; cases hwait
  | ended e => intro hwait; cases hwait

/-- A workspace that is given up without a failure is there no more. -/
theorem cellNext_of_released (hretain : s.retainWorkspaces = false) (hp : p = .waiting → find? name more = none)
    (hprev : p.Released (job.workspace ws) → find? name more = none)
    (hrel : (job.advance s ws (σ.fill more) p).2.Released (job.workspace ws)) :
    job.cellNext s ws (find? name more) p = none := by
  have hgiven : ∀ report artifacts worked,
      (job.conclude s ws report artifacts worked (σ.fill more)).2.Released (job.workspace ws) →
      (job.workspace ws).cellReleased s.retainWorkspaces (find? name more) = none := by
    rintro report artifacts worked ⟨e, release, he, hr, hok⟩
    rw [conclude_fill h] at he
    cases he
    obtain rfl := Option.some.inj hr
    rw [hretain] at hok ⊢
    exact Workspace.cellReleased_eq_none hok
  cases p with
  | waiting =>
    rw [Job.advance, acquire_placed h (hp rfl)] at hrel
    obtain ⟨e, release, he, -⟩ := hrel
    cases he
  | acquired =>
    obtain ⟨e, release, he, -⟩ := hrel
    cases he
  | invoked report =>
    cases report with
    | ok invocation =>
      obtain ⟨e, release, he, -⟩ := hrel
      cases he
    | error failure => exact hgiven _ _ _ hrel
  | gathered invocation artifacts worked => exact hgiven _ _ _ hrel
  | ended e => exact hprev hrel

end Placed

end Demotion.Analysis
