import Demotion.Proofs.Workspace.Acquire

/-!
# What the name of a submission can do

A client chooses the name of a submission, and all that is kept of it is an extension in lower case. So the
name moves no path: the directory of a workspace does not depend on it, and the source is an entry of that
directory. Nor does it reach the command of the tool otherwise than as the name of that entry, which is never
taken for an option.

* `ofText_sourceName`: the name of the source file is a path of one name.
* `extensionOf_sourceName`: the extension of the source file is the one by which the submission is admitted.
* `sourceName_confined`: **the name of a submission decides the extension of the source file, and nothing else.**
-/

namespace Demotion

section Name

variable (name : Content)

theorem slash_not_mem_sourceName : .char '/' ∉ Submission.sourceName name := by
  obtain ⟨ext, hname, -, -, -, hslash⟩ := sourceName_eq name
  rw [hname]
  intro hmem
  rcases List.mem_append.1 hmem with hmem | hmem
  · exact absurd hmem (by decide)
  · rcases List.mem_cons.1 hmem with heq | hmem
    · exact absurd heq (by decide)
    · exact hslash hmem

theorem head?_sourceName : (Submission.sourceName name).head? = some (.char 's') := by
  obtain ⟨ext, hname, -⟩ := sourceName_eq name
  rw [hname]
  rfl

/-- As a path, the name of the source file is relative and has one name. -/
theorem ofText_sourceName :
    FilePath.ofText (Submission.sourceName name) = ⟨.here, [Submission.sourceName name]⟩ := by
  have hne : ∀ text : Content, text.head? ≠ some (.char 's') → Submission.sourceName name ≠ text := by
    rintro _ h rfl
    exact h (head?_sourceName name)
  exact ofText_of_not_mem (slash_not_mem_sourceName name) (hne [] (by decide)) (hne [.char '.'] (by decide))

/-- The extension of the source file, in the letters that it has. -/
theorem extensionOf_sourceName :
    FilePath.extensionOf (Submission.sourceName name) = Submission.sourceExtension name := by
  obtain ⟨ext, hname, hext, hne, hdot, -⟩ := sourceName_eq name
  rw [hname, hext]
  exact extensionOf_append (by decide) hne hdot

end Name

/-- The source of a workspace is an entry of its directory. -/
structure Workspace.HoldsSource (w : Workspace) : Prop where
  /-- The path of the source is what its name leads to from the directory. -/
  joined : (FilePath.ofText w.sourceName).start = .here ∧ w.path.descend w.sourceName = w.sourcePath
  parent : w.sourcePath.parent = w.path
  name : w.sourcePath.name = w.sourceName

theorem Workspace.holdsSource (w : Workspace) : w.HoldsSource := by
  have hpath : FilePath.ofText w.sourceName = ⟨.here, [w.sourceName]⟩ := ofText_sourceName w.submittedName
  refine ⟨⟨by rw [hpath], ?_⟩, ?_, ?_⟩
  · unfold FilePath.descend Workspace.sourcePath FilePath.child
    rw [hpath]
  · unfold FilePath.parent Workspace.sourcePath FilePath.child
    rw [List.dropLast_concat]
  · unfold FilePath.name Workspace.sourcePath FilePath.child
    rw [List.getLast?_concat]
    rfl

/-- Where the source is found in a workspace as it is made: directly in its directory. -/
theorem Berth.locate_source {t : FileTree} {σ : Site t} {w : Workspace} {name : FileName} (b : Berth σ w name)
    (hfits : w.fits = true) (source : List UInt8) :
    (σ.fill [(name, w.fresh source)]).locate w.sourcePath = .ok (σ.place ++ [name] ++ [w.sourceFile]) ∧
      (σ.fill [(name, w.fresh source)]).node? w.sourcePath = some (.file source) := by
  have hcell := Assoc.find?_singleton name (w.fresh source)
  unfold Workspace.fits at hfits
  simp only [Bool.and_eq_true, decide_eq_true_eq] at hfits
  have hlocate : (σ.fill [(name, w.fresh source)]).locate w.sourcePath =
      .ok (σ.place ++ [name] ++ [w.sourceFile]) := by
    unfold Workspace.sourcePath at hfits ⊢
    rw [b.locate_child w.sourceName_ne, if_neg (Nat.not_lt.2 hfits.1), hcell]
    exact if_neg (Nat.not_lt.2 hfits.2)
  refine ⟨hlocate, ?_⟩
  have hget := b.get?_child [(name, w.fresh source)] w.sourceFile
  rw [hcell, Option.bind_some, Node.get?_singleton] at hget
  unfold FileTree.node?
  rw [hlocate]
  exact congrArg (Option.map Node.found) (hget.trans (Assoc.find?_singleton _ _))

/-- Where the source of a workspace that was made is found. -/
theorem locate_sourcePath {ws : Workspaces} {id : String} {name : Content} {source : List UInt8}
    {t tree : FileTree} {w : Workspace} (h : (ws.workspace id name).acquire source t = (tree, .ok w)) :
    w = ws.workspace id name ∧ ∃ place, tree.locate w.path = .ok place ∧
      tree.locate w.sourcePath = .ok (place ++ [.ofContent (Submission.sourceName name)]) ∧
      tree.node? w.sourcePath = some (.file source) := by
  obtain ⟨front, last, hnames⟩ := exists_names_workspace ws id name
  have hself := acquire_eq h
  subst hself
  obtain ⟨σ, -, b, hpath, hsource, hfits⟩ := Berth.of_acquire hnames (by rw [h])
  -- the tree is the one before with the new directory in the berth
  have hacquire := b.acquire_fill hpath (show Assoc.find? _ [] = none from rfl) source
  rw [σ.fill_nil, h, hsource] at hacquire
  simp only [if_pos hfits] at hacquire
  obtain rfl : tree = σ.fill [(.ofContent last, (ws.workspace id name).fresh source)] := (Prod.mk.inj hacquire).1
  obtain ⟨hlocate, hnode⟩ := b.locate_source hfits source
  exact ⟨rfl, σ.place ++ [.ofContent last], b.locate_fill _, hlocate, hnode⟩

/-- The command of the tool names the source file, and this is all that the name of a submission does to it. -/
theorem command_workspace (s : Settings) (ws : Workspaces) (id : String) (name other : Content) :
    (Tool.command s (ws.workspace id name))[2]? = some (ws.workspace id name).sourcePath.name ∧
      (ws.workspace id name).sourcePath.name.head? ≠ some (.char '-') ∧
      (Tool.command s (ws.workspace id name)).eraseIdx 2 =
        (Tool.command s (ws.workspace id other)).eraseIdx 2 := by
  have hhead : (ws.workspace id name).sourceName.head? = some (.char 's') := head?_sourceName name
  rw [(ws.workspace id name).holdsSource.name, hhead]
  refine ⟨rfl, by decide, ?_⟩
  unfold Tool.command
  simp only [List.eraseIdx_cons_succ, List.eraseIdx_cons_zero]

/-- The extension of the source file of a submission that is admitted. -/
theorem extension_of_check {s : Settings} {name : Content} {size : Int}
    (h : Submission.check s (some name) size = .ok ()) :
    (FilePath.extensionOf (FilePath.ofText name).name = [] →
      FilePath.extensionOf (Submission.sourceName name) = Content.ofText Submission.defaultExtension) ∧
    (FilePath.extensionOf (FilePath.ofText name).name ≠ [] →
      FilePath.extensionOf (Submission.sourceName name) ∈ (Submission.allowed s).map Content.ofText) := by
  have hallowed : Submission.extension name ∈ (Submission.allowed s).map Content.ofText := by
    unfold Submission.check at h
    by_contra hno
    simp only [if_pos hno] at h
    split at h <;> cases h
  rw [extensionOf_sourceName, Ne, ← extension_eq_nil]
  unfold Submission.sourceExtension
  constructor
  · intro hempty
    rw [if_pos hempty]
  · intro hown
    rw [if_neg hown]
    exact hallowed

/-- **The name of a submission decides the extension of the source file, and nothing else.** The file is called
`source.` with something behind the dot and without a slash; it is an entry of the directory of the workspace,
whose path is the same for all names, and is found there when the workspace was made; in the command of the tool
it stands as an argument that is no option. If the submission is admitted, the extension of the file is one of
those that are allowed, or `.c` if the name has none. -/
theorem sourceName_confined (name : Content) :
    (.char '/' ∉ Submission.sourceName name ∧
      ∃ c rest, Submission.sourceName name = Content.ofText "source." ++ c :: rest) ∧
    (∀ (ws : Workspaces) (id : String) (other : Content),
      (ws.workspace id name).HoldsSource ∧ (ws.workspace id name).path = (ws.workspace id other).path) ∧
    (∀ (ws : Workspaces) (id : String) (source : List UInt8) (t tree : FileTree) (w : Workspace),
      (ws.workspace id name).acquire source t = (tree, .ok w) →
        w = ws.workspace id name ∧ ∃ place, tree.locate w.path = .ok place ∧
          tree.locate w.sourcePath = .ok (place ++ [.ofContent (Submission.sourceName name)]) ∧
          tree.node? w.sourcePath = some (.file source)) ∧
    (∀ (s : Settings) (ws : Workspaces) (id : String) (other : Content),
      (Tool.command s (ws.workspace id name))[2]? = some (ws.workspace id name).sourcePath.name ∧
        (ws.workspace id name).sourcePath.name.head? ≠ some (.char '-') ∧
        (Tool.command s (ws.workspace id name)).eraseIdx 2 =
          (Tool.command s (ws.workspace id other)).eraseIdx 2) ∧
    ∀ (s : Settings) (size : Int), Submission.check s (some name) size = .ok () →
      (FilePath.extensionOf (FilePath.ofText name).name = [] →
        FilePath.extensionOf (Submission.sourceName name) = Content.ofText Submission.defaultExtension) ∧
      (FilePath.extensionOf (FilePath.ofText name).name ≠ [] →
        FilePath.extensionOf (Submission.sourceName name) ∈ (Submission.allowed s).map Content.ofText) := by
  refine ⟨⟨slash_not_mem_sourceName name, ?_⟩, ?_, ?_, ?_, ?_⟩
  · obtain ⟨ext, hname, -, hne, -⟩ := sourceName_eq name
    obtain ⟨c, rest, rfl⟩ := List.exists_cons_of_ne_nil hne
    exact ⟨c, rest, hname⟩
  · intro ws id other
    exact ⟨(ws.workspace id name).holdsSource, rfl⟩
  · intro ws id source t tree w h
    exact locate_sourcePath h
  · intro s ws id other
    exact command_workspace s ws id name other
  · intro s size h
    exact extension_of_check h

/-- A name with directories, dots in front and capitals, and one without an extension where that is allowed. -/
theorem sourceName_confined_hidden :
    (∃ tree w, ((⟨⟨.here, []⟩, true⟩ : Workspaces).workspace "id1" "../-x/..b.CPP/.").acquire [7]
        ⟨.directory [], []⟩ = (tree, .ok w) ∧ tree.node? w.sourcePath = some (.file [7])) ∧
      Submission.check {} (some ("../-x/..b.CPP/." : String)) 1 = .ok () ∧
      FilePath.extensionOf (Submission.sourceName "../-x/..b.CPP/.") ∈
        (Submission.allowed {}).map Content.ofText ∧
      Submission.check { allowedExtensions := [""] } (some ("-." : String)) 1 = .ok () ∧
      FilePath.extensionOf (Submission.sourceName "-.") = Content.ofText ".c" := by
  let w : Workspace := (⟨⟨.here, []⟩, true⟩ : Workspaces).workspace "id1" "../-x/..b.CPP/."
  have hmade : (w.acquire [7] ⟨.directory [], []⟩).2 = .ok w := by decide +kernel
  have hadmitted : Submission.check {} (some ("../-x/..b.CPP/." : String)) 1 = .ok () := by decide +kernel
  have hbare : Submission.check { allowedExtensions := [""] } (some ("-." : String)) 1 = .ok () := by
    decide +kernel
  obtain ⟨-, -, hfound, -, hextension⟩ := sourceName_confined "../-x/..b.CPP/."
  obtain ⟨-, -, -, -, hdefault⟩ := sourceName_confined "-."
  obtain ⟨-, place, -, -, hnode⟩ := hfound _ _ _ _ _ _ (Prod.ext rfl hmade)
  have hin := (hextension {} 1 hadmitted).2 (by decide +kernel)
  have hc := (hdefault { allowedExtensions := [""] } 1 hbare).1 (by decide +kernel)
  exact ⟨⟨_, w, Prod.ext rfl hmade, hnode⟩, hadmitted, hin, hbare, hc⟩

end Demotion
