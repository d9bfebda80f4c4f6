import Demotion.Proofs.Analysis.Independence
import Demotion.Proofs.FileTree.Growth

/-!
# What is around an analysis

An analysis looks at nothing outside of its workspace but which places are taken and what kind of thing is there.
So what other files hold, such as the log, has no bearing on its result.

* `acquire_congr`: making a workspace comes out alike in trees that look alike.
* `outcome_congr`: so does running the tool, also one that is looked for in vain.
* `run_congr`: **the result of an analysis does not depend on what other files hold.**
-/

namespace Demotion.Analysis

open Assoc (find?)

variable {t t' : FileTree}

theorem acquire_congr (h : t.SameKinds t') (job : Job) (ws : Workspaces) :
    ((job.workspace ws).acquire job.source t).2 = ((job.workspace ws).acquire job.source t').2 := by
  have hnames : ∃ front last, (job.workspace ws).path.names = front ++ [last] :=
    exists_names_workspace ws job.id job.name
  generalize job.workspace ws = w at hnames ⊢
  cases hpath : Failure.ofPath? w.path with
  | some failure =>
    unfold Workspace.acquire
    rw [hpath]
  | none =>
    cases hmade : t.makeDirectory w.path with
    | error e =>
      have hmade' := h.makeDirectory hmade
      unfold Workspace.acquire
      rw [hpath, hmade, hmade']
    | ok made =>
      cases hmade' : t'.makeDirectory w.path with
      | error e =>
        rw [h.symm.makeDirectory hmade'] at hmade
        cases hmade
      | ok made' =>
        -- made at a free name of a directory, it is told by its own entry in both trees
        obtain ⟨front, last, hlast⟩ := hnames
        obtain ⟨σ, -, b⟩ := Berth.of_makeDirectory hlast hmade
        obtain ⟨σ', -, b'⟩ := Berth.of_makeDirectory hlast hmade'
        have hacquire := b.acquire_fill hpath (show find? _ [] = none from rfl) job.source
        have hacquire' := b'.acquire_fill hpath (show find? _ [] = none from rfl) job.source
        rw [σ.fill_nil] at hacquire
        rw [σ'.fill_nil] at hacquire'
        rw [hacquire, hacquire']
        split
        · rfl
        · split <;> rfl

/-- A workspace has its berth at the same place in trees that look alike. -/
theorem berth_congr {σ : Site t} {σ' : Site t'} {w : Workspace} {name name' : FileName} (h : t.SameKinds t')
    (b : Berth σ w name) (b' : Berth σ' w name') : σ.place = σ'.place ∧ name = name' := by
  have hplace : σ.place ++ [name] = σ'.place ++ [name'] := by
    have hlocated := b.located
    rw [h.locate, b'.located] at hlocated
    exact (Except.ok.inj hlocated).symm
  obtain ⟨hfront, hlast⟩ := List.append_inj' hplace rfl
  exact ⟨hfront, List.head_eq_of_cons_eq hlast⟩

/-- A tool that cannot be started fails to for the same reason. -/
theorem run_absent_congr {σ : Site t} {σ' : Site t'} {w : Workspace} {name : FileName} (h : t.SameKinds t')
    (b : Berth σ w name) (b' : Berth σ' w name) {more es : List (FileName × Node)}
    (hcell : find? name more = some (.directory es)) (host : Host) (s : Settings) :
    (Tool.absent.run host s w (σ.fill more)).2 = (Tool.absent.run host s w (σ'.fill more)).2 := by
  obtain ⟨hplace, -⟩ := berth_congr h b b'
  have halike := Site.sameKinds_fill h σ σ' hplace more
  unfold Tool.run Tool.start
  simp only
  split
  · rfl
  · rw [b.locate_fill, b'.locate_fill]
    simp only [b.enter_fill, b'.enter_fill, hcell]
    rw [hplace, Tool.startFault_congr fun place _ => halike.kinds place]
    rfl

section

variable {job : Job} {s : Settings} {ws : Workspaces} (h : t.SameKinds t')

include h

theorem outcome_congr (hacquired : ((job.workspace ws).acquire job.source t).2 = .ok (job.workspace ws)) :
    job.outcome s ws t = job.outcome s ws t' := by
  have hacquired' := hacquired
  rw [acquire_congr h] at hacquired'
  cases htool : job.tool with
  | present run => rw [outcome_present hacquired htool, outcome_present hacquired' htool]
  | absent =>
    -- only a tool that cannot be started is looked for outside of the workspace
    obtain ⟨σ, name, b, hacquire⟩ := exists_berth hacquired
    obtain ⟨σ', name', b', hacquire'⟩ := exists_berth hacquired'
    obtain ⟨-, rfl⟩ := berth_congr h b b'
    unfold Job.outcome
    rw [hacquire, hacquire', htool]
    exact run_absent_congr h b b' (Assoc.find?_singleton name _) job.host s

/-- **The result of an analysis does not depend on what other files hold.** -/
theorem run_congr (job : Job) (s : Settings) (ws : Workspaces) :
    (job.run s ws t).result = (job.run s ws t').result := by
  have hcongr := acquire_congr h job ws
  rcases hacquire : (job.workspace ws).acquire job.source t with ⟨tree, failure | w⟩
  · rw [hacquire] at hcongr
    rw [run_refused rfl hacquire, run_refused rfl (Prod.ext rfl hcongr.symm)]
  · obtain rfl := acquire_eq hacquire
    have hacquired := congrArg Prod.snd hacquire
    rw [run_told hacquired, run_told (hcongr ▸ hacquired), outcome_congr h hacquired]

end

end Demotion.Analysis
