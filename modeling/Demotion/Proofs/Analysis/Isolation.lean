import Demotion.Proofs.Analysis.Stages

/-!
# Analyses at work on the same files

Analyses share one tree of files and take their stages in any order. Each has a workspace of its own, and
what it gives is what it gives alone.

* `Separate`: analyses whose workspaces can all be made, under different names, and of which none looks for
  its tool in the workspace of another.
* `Agrees`: the invariant. The tree is the one at the start with the workspaces as further entries, and each
  analysis has come as far as it would have come alone, with the same entry.
* `agrees_step`, `agrees_interleave`: a stage keeps it, and so does every schedule.
* `interleave_isolated`: **every analysis gives what it gives alone, and the workspaces leave no trace.**
-/

namespace Demotion.Analysis

open Assoc (find? assign)

/-- Analyses at work on the same files: the files, and how far each analysis has come. -/
structure Shared (ι : Type*) where
  tree : FileTree
  progress : ι → Progress

/-- The name of the entry of a workspace. -/
def Job.entry (job : Job) : FileName :=
  .text ("ws_" ++ job.id)

section

variable {ι : Type*} [DecidableEq ι] (jobs : ι → Job) (s : Settings) (ws : Workspaces) (t : FileTree)

/-- One analysis takes one stage. -/
def Shared.step (state : Shared ι) (i : ι) : Shared ι where
  tree := ((jobs i).advance s ws state.tree (state.progress i)).1
  progress := Function.update state.progress i ((jobs i).advance s ws state.tree (state.progress i)).2

/-- The state after a schedule, which says analysis by analysis who takes the next stage. -/
def interleave (schedule : List ι) : Shared ι :=
  schedule.foldl (Shared.step jobs s ws) ⟨t, fun _ => .waiting⟩

omit [DecidableEq ι] in
/-- Analyses that do not meet. Their ids differ and are names of their own, so that there is no slash in
them; each workspace can be made; and a tool that cannot be started is not looked for in the workspace of
another analysis. -/
structure Separate : Prop where
  distinct : ∀ i j, (jobs i).id = (jobs j).id → i = j
  noSlash : ∀ i, '/' ∉ (jobs i).id.toList
  acquired : ∀ i, (((jobs i).workspace ws).acquire (jobs i).source t).2 = .ok ((jobs i).workspace ws)
  confined : ∀ i j, i ≠ j → (jobs i).tool = .absent → ∀ p q, t.locate ((jobs i).workspace ws).path = .ok p →
    t.locate ((jobs j).workspace ws).path = .ok q → ∀ place ∈ Tool.lookups s.clangPath p, ¬q <+: place

end

/-! ## Where the workspaces stand -/

/-- A workspace that can be made stands in the directory of all workspaces. -/
theorem exists_placed {job : Job} {ws : Workspaces} {t : FileTree} (hid : '/' ∉ job.id.toList)
    (h : ((job.workspace ws).acquire job.source t).2 = .ok (job.workspace ws)) :
    ∃ σ : Site t, FileTree.walk t.top (if ws.root.start = .here then t.working else []) ws.root.names =
        .ok σ.place ∧ Placed σ job ws job.entry := by
  obtain ⟨σ, hwalk, berth, hpath, hsource, hfits⟩ := Berth.of_acquire (names_workspace ws hid job.name) h
  rw [FileName.ofContent_ofText] at berth
  exact ⟨σ, hwalk, berth, hpath, hsource, hfits⟩

section Invariant

variable {ι : Type*} {jobs : ι → Job} {s : Settings} {ws : Workspaces} {t : FileTree}

/-- All workspaces stand in one directory. -/
theorem Separate.exists_site (h : Separate jobs s ws t) (i : ι) :
    ∃ σ : Site t, ∀ j, Placed σ (jobs j) ws (jobs j).entry := by
  obtain ⟨σ, hwalk, -⟩ := exists_placed (h.noSlash i) (h.acquired i)
  refine ⟨σ, fun j => ?_⟩
  obtain ⟨τ, hwalk', hplaced⟩ := exists_placed (h.noSlash j) (h.acquired j)
  rw [hwalk] at hwalk'
  rw [Site.eq_of_place (Except.ok.inj hwalk')]
  exact hplaced

theorem Separate.entry_ne (h : Separate jobs s ws t) {i j : ι} (hij : i ≠ j) :
    (jobs i).entry ≠ (jobs j).entry := by
  intro he
  -- the names have the same start, so the ids are what differs
  refine hij (h.distinct i j ?_)
  unfold Job.entry at he
  have hlist := congrArg String.toList (FileName.text.inj he)
  rw [String.toList_append, String.toList_append] at hlist
  exact String.toList_injective (List.append_cancel_left hlist)

/-- **The invariant.** The tree is the one at the start with `more` entries, which are workspaces. Each
analysis has come as far as it would have come alone with as many turns, and there its workspace is the same.
One that waits has no workspace, nor has one that gave it up without a failure. -/
structure Agrees (jobs : ι → Job) (s : Settings) (ws : Workspaces) (σ : Site t) (more : List (FileName × Node))
    (state : Shared ι) (turns : ι → Nat) : Prop where
  tree : state.tree = σ.fill more
  names : ∀ key, (∀ i, key ≠ (jobs i).entry) → find? key more = none
  alone : ∀ i, (jobs i).alone s ws t (turns i) =
    (σ.fill (assign (jobs i).entry (find? (jobs i).entry more) []), state.progress i)
  waiting : ∀ i, state.progress i = .waiting → find? (jobs i).entry more = none
  released : s.retainWorkspaces = false → ∀ i, (state.progress i).Released ((jobs i).workspace ws) →
    find? (jobs i).entry more = none

theorem agrees_start (σ : Site t) : Agrees jobs s ws σ [] ⟨t, fun _ => .waiting⟩ fun _ => 0 where
  tree := σ.fill_nil.symm
  names _ _ := rfl
  alone i := by
    have hfill : σ.fill (assign (jobs i).entry (find? (jobs i).entry []) []) = t := σ.fill_nil
    rw [hfill]
    rfl
  waiting _ _ := rfl
  released _ _ _ := rfl

/-- A tool that cannot be started is looked for outside of the other workspaces, so that they do not matter. -/
theorem Separate.find?_lookup (h : Separate jobs s ws t) {σ : Site t}
    (hplaced : ∀ j, Placed σ (jobs j) ws (jobs j).entry) {more : List (FileName × Node)}
    (hnames : ∀ key, (∀ i, key ≠ (jobs i).entry) → find? key more = none) {i : ι}
    (habsent : (jobs i).tool = .absent) {q : Place}
    (hq : q ∈ Tool.lookups s.clangPath (σ.place ++ [(jobs i).entry]))
    {key : FileName} {rest : Place} (hkey : q = σ.place ++ key :: rest) :
    find? key more = find? key (assign (jobs i).entry (find? (jobs i).entry more) []) := by
  by_cases hown : key = (jobs i).entry
  · rw [hown, Assoc.find?_assign_self]
  · rw [Assoc.find?_assign_of_ne hown]
    -- what is no workspace is in neither, and the other workspaces are not on the way
    refine hnames key fun j hj => ?_
    have hij : i ≠ j := by rintro rfl; exact hown hj
    refine h.confined i j hij habsent _ _ (hplaced i).berth.located (hplaced j).berth.located q hq ⟨rest, ?_⟩
    rw [hkey, hj, List.append_assoc, List.singleton_append]

/-- Where no analysis has a workspace the tree is the one at the start. -/
theorem tree_of_agrees {σ : Site t} {more : List (FileName × Node)} {state : Shared ι} {turns : ι → Nat}
    (ha : Agrees jobs s ws σ more state turns) (hnone : ∀ i, find? (jobs i).entry more = none) :
    state.tree = t := by
  have hmore : more = [] := by
    refine List.eq_nil_iff_forall_not_mem.2 fun e he => ?_
    obtain ⟨n, hn⟩ := Assoc.exists_find?_of_mem he
    have hfree : find? e.1 more = none := by
      by_cases hkey : ∃ i, e.1 = (jobs i).entry
      · obtain ⟨i, hi⟩ := hkey
        rw [hi]
        exact hnone i
      · push Not at hkey
        exact ha.names _ hkey
    rw [hfree] at hn
    cases hn
  rw [ha.tree, hmore, σ.fill_nil]

variable [DecidableEq ι]

/-- **A stage keeps the invariant.** -/
theorem agrees_step (h : Separate jobs s ws t) {σ : Site t} (hplaced : ∀ j, Placed σ (jobs j) ws (jobs j).entry)
    {more : List (FileName × Node)} {state : Shared ι} {turns : ι → Nat}
    (ha : Agrees jobs s ws σ more state turns) (i : ι) :
    Agrees jobs s ws σ
      (assign (jobs i).entry ((jobs i).cellNext s ws (find? (jobs i).entry more) (state.progress i)) more)
      (state.step jobs s ws i) (Function.update turns i (turns i + 1)) := by
  have hother : ∀ j, j ≠ i → ∀ cell, find? (jobs j).entry (assign (jobs i).entry cell more) =
      find? (jobs j).entry more := fun j hj cell => Assoc.find?_assign_of_ne (h.entry_ne hj) cell
  have hown :
      (state.step jobs s ws i).progress i = ((jobs i).advance s ws (σ.fill more) (state.progress i)).2 := by
    rw [← ha.tree]
    exact Function.update_self _ _ _
  have hstay : ∀ j, j ≠ i → (state.step jobs s ws i).progress j = state.progress j :=
    fun j hj => Function.update_of_ne hj _ _
  constructor
  · rw [Shared.step, ha.tree]
    exact advance_tree (hplaced i) (ha.waiting i)
  · intro key hkey
    rw [Assoc.find?_assign_of_ne (hkey i)]
    exact ha.names key hkey
  · intro j
    by_cases hj : j = i
    · -- the analysis that took the stage: alone, only its own entry is there besides the tree
      subst hj
      have hcell : find? (jobs j).entry (assign (jobs j).entry (find? (jobs j).entry more) []) =
          find? (jobs j).entry more := Assoc.find?_assign_self _
      rw [Function.update_self, Job.alone, ha.alone j, Assoc.find?_assign_self, hown]
      refine Prod.ext ?_ ?_
      · rw [advance_tree (hplaced j) (fun hp => hcell.trans (ha.waiting j hp)), hcell, Assoc.assign_assign_nil]
      · exact (advance_congr (hplaced j) (ha.waiting j) hcell.symm fun habsent q hq key rest hkey =>
          h.find?_lookup hplaced ha.names habsent hq hkey).symm
    · rw [Function.update_of_ne hj, hstay j hj, hother j hj]
      exact ha.alone j
  · intro j hwait
    by_cases hj : j = i
    · subst hj
      rw [hown] at hwait
      exact absurd hwait (advance_ne_waiting (hplaced j) (ha.waiting j))
    · rw [hother j hj]
      exact ha.waiting j (hstay j hj ▸ hwait)
  · intro hretain j hrel
    by_cases hj : j = i
    · subst hj
      rw [hown] at hrel
      rw [Assoc.find?_assign_self]
      exact cellNext_of_released (hplaced j) hretain (ha.waiting j) (ha.released hretain j) hrel
    · rw [hother j hj]
      exact ha.released hretain j (hstay j hj ▸ hrel)

/-- **Every schedule keeps the invariant.** -/
theorem agrees_interleave (h : Separate jobs s ws t) {σ : Site t}
    (hplaced : ∀ j, Placed σ (jobs j) ws (jobs j).entry) (schedule : List ι) :
    ∃ more, Agrees jobs s ws σ more (interleave jobs s ws t schedule) fun i => schedule.count i := by
  induction schedule using List.reverseRecOn with
  | nil => exact ⟨[], agrees_start σ⟩
  | append_singleton schedule i ih =>
    obtain ⟨more, ha⟩ := ih
    have hturns : (fun j => (schedule ++ [i]).count j) =
        Function.update (fun j => schedule.count j) i (schedule.count i + 1) := by
      funext j
      by_cases hj : j = i
      · subst hj; rw [Function.update_self, List.count_append, List.count_singleton_self]
      · rw [Function.update_of_ne hj, List.count_append, List.count_singleton, if_neg (by simpa using Ne.symm hj),
          Nat.add_zero]
    have hstate : interleave jobs s ws t (schedule ++ [i]) =
        (interleave jobs s ws t schedule).step jobs s ws i := by
      unfold interleave
      rw [List.foldl_append]
      rfl
    rw [hturns, hstate]
    exact ⟨_, agrees_step h hplaced ha i⟩

/-! ## Whole schedules -/

theorem result?_alone (job : Job) (s : Settings) (ws : Workspaces) (t : FileTree) {n : Nat} (hn : 4 ≤ n) :
    (job.alone s ws t n).2.result? = some (job.run s ws t).result := by
  obtain ⟨e, he, hresult⟩ := advance_alone job s ws t
  rw [alone_of_ended job s ws t he n hn, ← hresult]
  rfl

end Invariant

/-- A tool that leaves a file in its workspace and ends with a failure. -/
def leaving : ToolRun where
  effect _ node := some (.directory (node.entries ++ [(.text "demoted.c", .file [120])]))
  stdout := []
  stderr := []
  ending := .exited 1
  duration := .finite false 0 0

/-- Two analyses, of which one has no tool that can be started. -/
def twoJobs : Bool → Job
  | false => ⟨[], "a.c", roomyHost, .present leaving, "a1", .none⟩
  | true => ⟨[], "b.cpp", roomyHost, .absent, "b2", .none⟩

theorem separate_twoJobs : Separate twoJobs {} bareWorkspaces bareTree where
  distinct := by decide
  noSlash := by decide
  acquired := by decide
  confined i j _ _ p q _ _ place hplace := by
    have hnone : Tool.lookups ({} : Settings).clangPath p = [] := rfl
    rw [hnone] at hplace
    cases hplace

end Demotion.Analysis
