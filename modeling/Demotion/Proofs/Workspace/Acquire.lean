import Demotion.Proofs.Workspace.Berth

/-!
# Making a workspace

A workspace is made in two steps, the directory and the source in it, and each step may be refused. A refused
second step takes the first one back, with one exception: that the system does not take the name of the source
at all is found out after the directory was made, and then the directory stays.

* `AddedAt`: a tree that has one node more than another.
* `CanBeMade`: the directory of a workspace can be made.
* `acquire_outcomes`: everything that making a workspace can come to.
* `acquire_atomic`: **a workspace is made in full, at a free place, or not at all**, and when an empty directory
  stays.
* `acquire_strands`: a name with a null character leaves a directory behind.
-/

namespace Demotion

open Assoc (find? assign)

/-- A tree that has a node at a place where another has nothing, and is the other one without it. -/
structure FileTree.AddedAt (t : FileTree) (place : Place) (n : Node) (tree : FileTree) : Prop where
  free : t.top.get? place = none
  there : tree.top.get? place = some n
  rest : { tree with top := tree.top.erase place } = t

theorem FileTree.AddedAt.ne {t tree : FileTree} {place : Place} {n : Node} (h : AddedAt t place n tree) :
    tree ≠ t := by
  rintro rfl
  have hthere := h.there
  rw [h.free] at hthere
  cases hthere

/-- A node in the berth of a workspace is all that the tree has more. -/
theorem Berth.addedAt {t : FileTree} {σ : Site t} {w : Workspace} {name : FileName} (b : Berth σ w name)
    (n : Node) : t.AddedAt (σ.place ++ [name]) n (σ.fill [(name, n)]) where
  free := by
    have hfree := b.get?_fill []
    rwa [σ.fill_nil] at hfree
  there := by
    rw [b.get?_fill, Assoc.find?_singleton]
  rest := by
    have hnone : assign name none [(name, n)] = [] := Assoc.assign_singleton none n
    unfold Node.erase
    rw [b.assign_fill, hnone, σ.fill_nil]

namespace Workspace

variable {w : Workspace}

/-- The directory of a workspace can be made: the system takes its path, and what stands there allows it. -/
def CanBeMade (w : Workspace) (t : FileTree) : Prop :=
  Failure.ofPath? w.path = none ∧ ∃ made, t.makeDirectory w.path = .ok made

/-- **Everything that making a workspace can come to**: nothing is done, the directory alone is made because the
system does not take the name of the source, or the directory is made with the source in it. -/
theorem acquire_outcomes (hnames : ∃ front last, w.path.names = front ++ [last]) (source : List UInt8)
    (t : FileTree) :
    ((∃ failure, w.acquire source t = (t, .error failure)) ∧ (w.CanBeMade t → w.sourceName.IsTaken)) ∨
      ∃ (σ : Site t) (name : FileName), Berth σ w name ∧ w.CanBeMade t ∧
        ((∃ failure, Failure.ofPath? w.sourcePath = some failure ∧ ¬w.sourceName.IsTaken ∧
            w.acquire source t = (σ.fill [(name, .directory [])], .error failure)) ∨
          w.sourceName.IsTaken ∧ w.acquire source t = (σ.fill [(name, w.fresh source)], .ok w)) := by
  cases hpath : Failure.ofPath? w.path with
  | some failure =>
    refine Or.inl ⟨⟨failure, by unfold acquire; rw [hpath]⟩, fun hmake => ?_⟩
    cases hpath.symm.trans hmake.1
  | none =>
    cases hmade : t.makeDirectory w.path with
    | error e =>
      refine Or.inl ⟨⟨.workspace (.create w.path e), ?_⟩, fun hmake => ?_⟩
      · unfold acquire
        rw [hpath, hmade]
      · obtain ⟨-, made, hmake⟩ := hmake
        rw [hmade] at hmake
        cases hmake
    | ok made =>
      have hmake : w.CanBeMade t := ⟨hpath, made, hmade⟩
      obtain ⟨front, last, hlast⟩ := hnames
      obtain ⟨σ, -, b⟩ := Berth.of_makeDirectory hlast hmade
      have hacquire := b.acquire_fill hpath (show find? _ [] = none from rfl) source
      rw [σ.fill_nil] at hacquire
      have htaken : Failure.ofPath? w.sourcePath = none ↔ w.sourceName.IsTaken := ofPath?_child hpath w.sourceName
      cases hsource : Failure.ofPath? w.sourcePath with
      | some failure =>
        rw [hsource] at hacquire htaken
        exact Or.inr ⟨σ, _, b, hmake, Or.inl ⟨failure, rfl, (fun h => by cases htaken.2 h), hacquire⟩⟩
      | none =>
        rw [hsource] at hacquire
        by_cases hfits : w.fits = true
        · simp only [if_pos hfits] at hacquire
          exact Or.inr ⟨σ, _, b, hmake, Or.inr ⟨htaken.1 hsource, hacquire⟩⟩
        · -- the source is refused, and the directory is removed again
          simp only [if_neg hfits] at hacquire
          exact Or.inl ⟨⟨_, hacquire⟩, fun _ => htaken.1 hsource⟩

end Workspace

/-- What is acquired is the workspace that was asked for. -/
theorem acquire_eq {w acquired : Workspace} {source : List UInt8} {t tree : FileTree}
    (h : w.acquire source t = (tree, .ok acquired)) : acquired = w := by
  unfold Workspace.acquire at h
  split at h
  · cases h
  · split at h
    · cases h
    · split at h
      · cases h
      · split at h
        · cases h
        · cases h; rfl

/-- The path of a workspace is that of an entry of the directory of all workspaces. -/
theorem path_workspace (ws : Workspaces) {id : String} (hid : '/' ∉ id.toList) (name : Content) :
    (ws.workspace id name).path = ws.root.child (Content.ofText ("ws_" ++ id)) := by
  have hnames := names_workspace ws hid name
  unfold Workspaces.workspace FilePath.descend at hnames ⊢
  unfold FilePath.child
  exact congrArg (FilePath.mk ws.root.start) hnames

/-- **A workspace is made in full, at a free place, or not at all.** Where it is not made the tree is as before,
unless the name of the source has a null character or a half that stands for no byte and the directory can be
made: then the empty directory is all that the tree has more. Where it is made there was nothing at its path,
which is that of the entry `ws_` with the id in the directory of all workspaces, and a directory with the source
as its only entry is all that the tree has more. -/
theorem acquire_atomic (ws : Workspaces) (id : String) (name : Content) (source : List UInt8) (t : FileTree) :
    (∀ tree failure, (ws.workspace id name).acquire source t = (tree, .error failure) →
      (tree ≠ t ↔
        (.char '\x00' ∈ Submission.sourceName name ∨
          ∃ n, .half n ∈ Submission.sourceName name ∧ Content.isByte n = false) ∧
        (ws.workspace id name).CanBeMade t) ∧
      (tree ≠ t → ∃ place, t.locate (ws.workspace id name).path = .ok place ∧
        t.AddedAt place (.directory []) tree)) ∧
      ∀ tree w, (ws.workspace id name).acquire source t = (tree, .ok w) →
        w = ws.workspace id name ∧
          ('/' ∉ id.toList → w.path = ws.root.child (Content.ofText ("ws_" ++ id))) ∧
          t.node? w.path = none ∧ ∃ place, t.locate w.path = .ok place ∧
            t.AddedAt place (.directory [(.ofContent (Submission.sourceName name), .file source)]) tree := by
  have hnames := exists_names_workspace ws id name
  rcases Workspace.acquire_outcomes hnames source t with
    ⟨⟨failure, hrefused⟩, htaken⟩ | ⟨σ, entry, b, hmake, ⟨failure, -, huntaken, hstranded⟩ | ⟨-, hmade⟩⟩
  · rw [hrefused]
    refine ⟨?_, fun _ _ h => (by cases h)⟩
    rintro tree failure ⟨⟩
    refine ⟨⟨fun h => absurd rfl h, fun ⟨huntaken, hmake⟩ => ?_⟩, fun h => absurd rfl h⟩
    exact absurd (htaken hmake) (Content.not_isTaken.2 huntaken)
  · rw [hstranded]
    refine ⟨?_, fun _ _ h => (by cases h)⟩
    rintro tree failure ⟨⟩
    have hadded := b.addedAt (.directory [])
    exact ⟨⟨fun _ => ⟨Content.not_isTaken.1 huntaken, hmake⟩, fun _ => hadded.ne⟩,
      fun _ => ⟨_, b.located, hadded⟩⟩
  · rw [hmade]
    refine ⟨fun _ _ h => (by cases h), ?_⟩
    rintro tree w ⟨⟩
    have hadded := b.addedAt ((ws.workspace id name).fresh source)
    refine ⟨rfl, fun hid => path_workspace ws hid name, ?_, _, b.located, hadded⟩
    unfold FileTree.node? Node.foundAt?
    rw [b.located]
    exact congrArg (Option.map Node.found) hadded.free

/-- **A workspace can be left half made**: a name whose extension has a null character leaves the empty
directory. -/
theorem acquire_strands :
    ¬∀ (ws : Workspaces) (id : String) (name : Content) (source : List UInt8) (t tree : FileTree)
      (failure : Failure), (ws.workspace id name).acquire source t = (tree, .error failure) → tree = t := by
  intro h
  let ws : Workspaces := ⟨⟨.here, []⟩, true⟩
  let t : FileTree := ⟨.directory [], []⟩
  have hfailed : ((ws.workspace "id1" "a.\x00").acquire [] t).2 = .error .null := by decide
  have hthere : (((ws.workspace "id1" "a.\x00").acquire [] t).1.top.get? ["ws_id1"]).isSome = true := by decide
  have hsame := h ws "id1" "a.\x00" [] t _ .null (Prod.ext rfl hfailed)
  have hgone := congrArg (fun tree => (tree.top.get? ["ws_id1"]).isSome) hsame
  cases hthere.symm.trans hgone

/-- A half that stands for no byte does the same. It is told by its position in the path of the source. -/
example : (Workspace.acquire ⟨"id1", ⟨.here, ["ws_id1"]⟩, [.char 'a', .char '.', .half 0xD800]⟩ []
    ⟨.directory [], []⟩).2 = .error (.unencodable ⟨0xD800, 14, 14⟩) := by decide

end Demotion
