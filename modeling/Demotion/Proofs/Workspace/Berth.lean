import Demotion.Artifacts
import Demotion.Proofs.FileTree.Site
import Demotion.Proofs.Workspace.Names
import Demotion.Tool

/-!
# What is done in a workspace

A workspace stands at a free name of a directory, its `Berth`. Everything that is done with it is told by
its own entry there: what the other entries are makes no difference, and they stay as they are.

* `acquire_fill`: making the workspace, in a tree that has further entries beside it.
* `run_tree`, `run_congr`: running the tool. What becomes of the workspace is `Tool.cellAfter`.
* `collect_fill`, `artifacts_fill`: collecting the artifacts, which only a path that cannot be looked up
  stops.
* `release_fill`: giving the workspace up. What stays of it is `Workspace.cellReleased`.
-/

namespace Demotion

open Assoc (find? assign)

/-- The place of a workspace: a free name in a directory, to which its path leads. -/
structure Berth {t : FileTree} (σ : Site t) (w : Workspace) (name : FileName) : Prop where
  free : find? name σ.entries = none
  located : t.locate w.path = .ok (σ.place ++ [name])

namespace Workspace

/-- The directory of a workspace as it is made. -/
def fresh (w : Workspace) (source : List UInt8) : Node :=
  .directory [(w.sourceFile, .file source)]

/-- Whether the source file can be written into the workspace: its path and its name are short enough. -/
def fits (w : Workspace) : Bool :=
  w.sourcePath.content.size ≤ FileTree.maxPath && w.sourceName.size ≤ FileTree.maxName

/-- What becomes of the entry of a workspace that is given up. -/
def cellReleased (retain : Bool) (w : Workspace) (cell : Option Node) : Option Node :=
  if retain then cell else cell.bind fun node => (node.stays? w.path).map (·.1)

/-- How giving up a workspace comes out. -/
def releaseOf (retain : Bool) (w : Workspace) (cell : Option Node) : Release :=
  if retain then .retained
  else
    match cell with
    | none => .gone
    | some node =>
      match node.stays? w.path with
      | none => .removed
      | some left => .refused left.2

/-- After a release without a failure the workspace is not there, unless it is retained. -/
theorem cellReleased_eq_none {w : Workspace} {cell : Option Node}
    (h : (w.releaseOf false cell).result w = .ok ()) : w.cellReleased false cell = none := by
  unfold releaseOf at h
  unfold cellReleased
  cases cell with
  | none => rfl
  | some node =>
    cases hstays : node.stays? w.path with
    | none => simp [hstays]
    | some left =>
      simp only [hstays] at h
      cases h

theorem sourceName_ne (w : Workspace) : w.sourceName ≠ Content.ofText ".." := by
  obtain ⟨ext, hname, -⟩ := sourceName_eq w.submittedName
  intro h
  have hhead := congrArg List.head? (hname.symm.trans h)
  simp [Content.ofText] at hhead

end Workspace

namespace Tool

/-- The places at which a program that is started from a directory is looked for. -/
def lookups (program : String) (place : Place) : List Place :=
  let p := FilePath.ofText program
  if program.toList.contains '/' then FileTree.trail (if p.start = .here then place else []) p.names else []

/-- Why a program cannot be started depends on the kinds of what is found where it is looked for. -/
theorem startFault_congr {program : String} {place : Place} {top top' : Node}
    (h : ∀ p ∈ lookups program place, top.kindAt? p = top'.kindAt? p) :
    startFault top place program = startFault top' place program := by
  unfold startFault
  split
  · rename_i hslash
    unfold lookups at h
    simp only [hslash, if_true] at h
    unfold pathFault
    simp only [FileTree.walk_congr h]
    split
    · rfl
    · cases hwalk : FileTree.walk top' (if (FilePath.ofText program).start = .here then place else [])
          (FilePath.ofText program).names with
      | error fault => rfl
      | ok found => simp only [h found (FileTree.mem_trail_of_walk hwalk)]
  · rfl

/-- What becomes of the entry of a workspace when the tool is run, which is started in a directory only. -/
def cellAfter (tool : Tool) (source : FileName) (cell : Option Node) : Option Node :=
  match tool, cell with
  | .present run, some node =>
    if node.kind = .directory then node.changed (run.effect source node.found) else some node
  | _, cell => cell

end Tool

/-- What stops collecting an artifact from the entry of a workspace: its path cannot be looked up. -/
def Artifact.barrier? (w : Workspace) (cell : Option Node) (a : Artifact) : Option FileError :=
  if FileTree.maxPath < (a.path w).content.size then some (FileTree.refused .nameTooLong (a.path w))
  else
    match Kind.enter (cell.map Node.kind) with
    | .ok () => none
    | .error fault => if fault.meansAbsent then none else some (FileTree.refused fault (a.path w))

/-- What there is to be read of an artifact in the entry of a workspace. -/
def Artifact.ofCell (w : Workspace) (cell : Option Node) (a : Artifact) : Reading :=
  ofFound (a.path w) ((cell.bind (·.get? [.text a.fileName])).map Node.found)

/-- In what is no open directory there is nothing to be read. -/
theorem Artifact.ofCell_of_enter {w : Workspace} {cell : Option Node} {fault : FileFault}
    (h : Kind.enter (cell.map Node.kind) = .error fault) (a : Artifact) : a.ofCell w cell = .absent := by
  have hnone : cell.bind (·.get? [.text a.fileName]) = none := by
    cases cell with
    | none => rfl
    | some node =>
      have hdir : node.kind ≠ .directory := by
        intro hdir
        rw [Option.map_some, hdir] at h
        cases h
      rw [Option.bind_some, Node.get?_singleton, Node.entries_eq_nil hdir]
      rfl
  unfold ofCell
  rw [hnone]
  rfl

/-- The artifacts that there are to be read in the entry of a workspace. -/
def Artifacts.ofCell (w : Workspace) (cell : Option Node) : Artifacts where
  demotedCode := (Artifact.demotedCode.ofCell w cell).text?
  memoryReport := (Artifact.memoryReport.ofCell w cell).text?
  floatMap := (Artifact.floatMap.ofCell w cell).text?
  readErrors := Artifact.all.filterMap fun a => (a.ofCell w cell).error? a

namespace Berth

variable {t : FileTree} {σ : Site t} {w : Workspace} {name : FileName} (b : Berth σ w name)
  {more more' : List (FileName × Node)} {host : Host} {s : Settings}

include b

/-! ## Looking things up -/

theorem locate_fill (more : List (FileName × Node)) : (σ.fill more).locate w.path = .ok (σ.place ++ [name]) :=
  σ.locate_fill b.located

theorem get?_fill (more : List (FileName × Node)) :
    (σ.fill more).top.get? (σ.place ++ [name]) = find? name more := by
  rw [σ.get?_fill b.free]
  cases find? name more <;> rfl

theorem node?_fill (more : List (FileName × Node)) :
    (σ.fill more).node? w.path = (find? name more).map Node.found := by
  unfold FileTree.node?
  rw [b.locate_fill]
  exact congrArg (Option.map Node.found) (b.get?_fill more)

theorem enter_fill (more : List (FileName × Node)) :
    (σ.fill more).top.enter (σ.place ++ [name]) = Kind.enter ((find? name more).map Node.kind) := by
  unfold Node.enter Node.kindAt?
  rw [b.get?_fill]

theorem get?_child (more : List (FileName × Node)) (key : FileName) :
    (σ.fill more).top.get? (σ.place ++ [name] ++ [key]) = (find? name more).bind (·.get? [key]) := by
  rw [List.append_assoc, List.singleton_append, σ.get?_fill b.free]

/-- Where the path of an entry of the workspace leads. -/
theorem locate_child {key : Content} (hkey : key ≠ Content.ofText "..") (more : List (FileName × Node)) :
    (σ.fill more).locate (w.path.child key) =
      if FileTree.maxPath < (w.path.child key).content.size then .error .nameTooLong
      else match Kind.enter ((find? name more).map Node.kind) with
        | .error fault => .error fault
        | .ok () =>
          if FileTree.maxName < key.size then .error .nameTooLong
          else .ok (σ.place ++ [name] ++ [.ofContent key]) := by
  rw [FileTree.locate_child (b.locate_fill more), FileTree.walk, b.enter_fill]
  simp only [if_neg hkey]
  rfl

theorem assign_fill (cell : Option Node) (more : List (FileName × Node)) :
    { σ.fill more with top := (σ.fill more).top.assign (σ.place ++ [name]) cell } =
      σ.fill (assign name cell more) :=
  σ.assign_fill b.free cell

omit b in
/-- Giving the entry the node that it has changes nothing. -/
theorem fill_same (more : List (FileName × Node)) :
    σ.fill (assign name (find? name more) more) = σ.fill more := by
  rw [Assoc.assign_of_find? rfl]

/-- What stays of a workspace that is removed. -/
theorem removeDirectory_fill {node : Node} (hcell : find? name more = some node) :
    (σ.fill more).removeDirectory w.path =
      (σ.fill (assign name ((node.stays? w.path).map (·.1)) more),
        match node.stays? w.path with
        | some left => .error left.2
        | none => .ok ()) := by
  unfold FileTree.removeDirectory
  rw [b.locate_fill]
  cases hstays : node.stays? w.path with
  | none => simp [b.get?_fill, hcell, b.assign_fill, hstays]
  | some left => simp [b.get?_fill, hcell, b.assign_fill, hstays]

/-! ## Making the workspace -/

theorem makeDirectory_fill (hcell : find? name more = none) :
    (σ.fill more).makeDirectory w.path = .ok (σ.fill (assign name (some (.directory [])) more)) := by
  unfold FileTree.makeDirectory Node.put
  rw [b.locate_fill]
  simp only [b.get?_fill, hcell, b.assign_fill]

/-- Writing the source into the empty workspace. -/
theorem writeFile_fill (hcell : find? name more = some (.directory [])) (source : List UInt8) :
    (σ.fill more).writeFile w.sourcePath source =
      if w.fits then .ok (σ.fill (assign name (some (w.fresh source)) more))
      else .error (FileTree.refused .nameTooLong w.sourcePath) := by
  unfold FileTree.writeFile FileTree.updateFile Workspace.fits Workspace.sourcePath
  rw [b.locate_child w.sourceName_ne, hcell]
  -- of a path that is too long and a name that is too long the path is found out first
  by_cases hpath : FileTree.maxPath < (w.path.child w.sourceName).content.size
  · simp [hpath]
  · by_cases hname : FileTree.maxName < w.sourceName.size
    · simp [hpath, hname, Node.kind, Kind.enter]
    · have hput := σ.put_fill_child b.free hcell w.sourceFile (.file source)
      have hnone : (σ.fill more).top.get? (σ.place ++ [name] ++ [.ofContent w.sourceName]) = none := by
        rw [b.get?_child, hcell]
        rfl
      simp only [if_neg hpath, Option.map_some, Node.kind, Kind.enter, if_neg hname,
        Nat.le_of_not_lt hpath, Nat.le_of_not_lt hname, decide_true, Bool.and_self, if_true, hnone, Node.change]
      exact congrArg Except.ok hput

/-- **Making a workspace** whose name is free. -/
theorem acquire_fill (hpath : Failure.ofPath? w.path = none) (hcell : find? name more = none)
    (source : List UInt8) :
    w.acquire source (σ.fill more) =
      match Failure.ofPath? w.sourcePath with
      | some failure => (σ.fill (assign name (some (.directory [])) more), .error failure)
      | none =>
        if w.fits then (σ.fill (assign name (some (w.fresh source)) more), .ok w)
        else (σ.fill more,
          .error (.workspace (.write w.path (FileTree.refused .nameTooLong w.sourcePath)))) := by
  have hmade : find? name (assign name (some (.directory [])) more) = some (.directory []) :=
    Assoc.find?_assign_self _
  have hagain : assign name (some (w.fresh source)) (assign name (some (.directory [])) more) =
      assign name (some (w.fresh source)) more := Assoc.assign_set _ _
  unfold Workspace.acquire
  rw [hpath, b.makeDirectory_fill hcell]
  cases Failure.ofPath? w.sourcePath with
  | some failure => rfl
  | none =>
    simp only [b.writeFile_fill hmade, hagain]
    by_cases hfits : w.fits = true
    · simp only [hfits, if_true]
    · -- what was made is removed again
      have hback : assign name none (assign name (some (.directory [])) more) = more :=
        (Assoc.assign_set _ _).trans (Assoc.assign_of_find? hcell)
      simp only [if_neg hfits]
      unfold Workspace.discard
      rw [b.removeDirectory_fill hmade]
      exact congrArg (fun tree => (tree, _)) (congrArg σ.fill hback)

omit b in
/-- A directory is made only at a free name in a directory, to which the other names of the path lead. -/
theorem of_makeDirectory {made : FileTree} {front : List Content} {last : Content}
    (hnames : w.path.names = front ++ [last]) (h : t.makeDirectory w.path = .ok made) :
    ∃ σ : Site t, FileTree.walk t.top (if w.path.start = .here then t.working else []) front = .ok σ.place ∧
      Berth σ w (.ofContent last) := by
  unfold FileTree.makeDirectory at h
  cases hloc : t.locate w.path with
  | error fault => rw [hloc] at h; cases h
  | ok place =>
    rw [hloc] at h
    have hfree : t.top.get? place = none := by
      cases hn : t.top.get? place with
      | none => rfl
      | some n => simp only [hn] at h; cases h
    have hwalk := hloc
    unfold FileTree.locate at hwalk
    split at hwalk
    · cases hwalk
    · rw [hnames] at hwalk
      obtain ⟨q, hq, hdir, hlast⟩ := FileTree.walk_concat hwalk
      obtain ⟨σ, rfl⟩ := Site.exists_of_kindAt? hdir
      obtain ⟨-, rfl⟩ | ⟨-, -, rfl⟩ := hlast
      · -- up from a directory there is a node
        obtain ⟨m, hm⟩ := Node.get?_dropLast σ.found
        rw [hm] at hfree
        cases hfree
      · refine ⟨σ, hq, ?_, hloc⟩
        rw [Node.get?_append, σ.found, Option.bind_some, Node.get?_singleton] at hfree
        exact hfree

omit b in
/-- A workspace that can be made has a berth, and its source has a name that a file can have. -/
theorem of_acquire {source : List UInt8} {front : List Content} {last : Content}
    (hnames : w.path.names = front ++ [last]) (h : (w.acquire source t).2 = .ok w) :
    ∃ σ : Site t, FileTree.walk t.top (if w.path.start = .here then t.working else []) front = .ok σ.place ∧
      Berth σ w (.ofContent last) ∧ Failure.ofPath? w.path = none ∧ Failure.ofPath? w.sourcePath = none ∧
      w.fits = true := by
  cases hpath : Failure.ofPath? w.path with
  | some failure =>
    unfold Workspace.acquire at h
    rw [hpath] at h
    cases h
  | none =>
    cases hmade : t.makeDirectory w.path with
    | error e =>
      unfold Workspace.acquire at h
      rw [hpath, hmade] at h
      cases h
    | ok made =>
      obtain ⟨σ, hwalk, b⟩ := of_makeDirectory hnames hmade
      have hacquire := b.acquire_fill hpath (show find? _ [] = none from rfl) source
      rw [σ.fill_nil] at hacquire
      rw [hacquire] at h
      refine ⟨σ, hwalk, b, rfl, ?_⟩
      cases hsource : Failure.ofPath? w.sourcePath with
      | some failure => rw [hsource] at h; cases h
      | none =>
        rw [hsource] at h
        refine ⟨rfl, ?_⟩
        by_contra hfits
        simp only [if_neg hfits] at h
        cases h

/-! ## Running the tool -/

/-- **A run of the tool changes the entry of its workspace and nothing else.** -/
theorem run_tree (tool : Tool) (more : List (FileName × Node)) :
    (tool.run host s w (σ.fill more)).1 =
      σ.fill (assign name (tool.cellAfter w.sourceFile (find? name more)) more) := by
  -- a tool that is not run leaves the entry as it is
  have hsame : σ.fill (assign name (find? name more) more) = σ.fill more := fill_same more
  have hstart : (tool.start host s w (σ.fill more)).1 =
      σ.fill (assign name (tool.cellAfter w.sourceFile (find? name more)) more) := by
    unfold Tool.start
    rw [b.locate_fill]
    simp only [b.enter_fill]
    cases tool with
    | absent =>
      refine Eq.trans ?_ hsame.symm
      split <;> rfl
    | present run =>
      cases hcell : find? name more with
      | none => rw [hcell] at hsame; exact hsame.symm
      | some node =>
        by_cases hdir : node.kind = .directory
        · have henter : Kind.enter ((some node).map Node.kind) = .ok () := by
            rw [Option.map_some, hdir]
            rfl
          have hfound : (σ.fill more).top.foundAt? (σ.place ++ [name]) = some node.found := by
            unfold Node.foundAt?
            rw [b.get?_fill, hcell]
            rfl
          have hafter : (Tool.present run).cellAfter w.sourceFile (some node) =
              node.changed (run.effect w.sourceFile node.found) := if_pos hdir
          rw [henter, hafter, ← b.assign_fill]
          unfold Tool.affect Node.change
          simp only [hfound, b.get?_fill, hcell, Option.bind_some]
        · have hafter : (Tool.present run).cellAfter w.sourceFile (some node) = some node := if_neg hdir
          rw [hafter, ← hcell, hsame]
          split <;> rename_i henter
          · rfl
          · rw [hcell] at henter
            exact absurd (Option.some.inj (Kind.enter_eq_ok.1 henter)) hdir
  cases tool with
  | present run => exact hstart
  | absent =>
    unfold Tool.run
    simp only
    split
    · exact hsame.symm
    · exact hstart

/-- **How a run comes out depends on the entry of its workspace only**, where a tool that cannot be started
is not looked for in entries that differ. -/
theorem run_congr (tool : Tool) (hcell : find? name more = find? name more')
    (hlook : tool = .absent → ∀ p ∈ Tool.lookups s.clangPath (σ.place ++ [name]),
      ∀ key rest, p = σ.place ++ key :: rest → find? key more = find? key more') :
    (tool.run host s w (σ.fill more)).2 = (tool.run host s w (σ.fill more')).2 := by
  have hstart : (tool.start host s w (σ.fill more)).2 = (tool.start host s w (σ.fill more')).2 := by
    unfold Tool.start
    rw [b.locate_fill, b.locate_fill]
    simp only [b.enter_fill, ← hcell]
    cases tool with
    | present run => split <;> rfl
    | absent =>
      have hfault := Tool.startFault_congr fun p hp => σ.kind_fill_congr (hlook rfl p hp)
      simp only [hfault]
      split <;> rfl
  cases tool with
  | present run => exact hstart
  | absent =>
    unfold Tool.run
    simp only
    split
    · rfl
    · exact hstart

/-- A tool that can be started comes out in a directory as its run says. -/
theorem run_present {es : List (FileName × Node)} (hcell : find? name more = some (.directory es))
    (run : ToolRun) :
    ((Tool.present run).run host s w (σ.fill more)).2 = Tool.outcome host.memory s.outputLimit run := by
  unfold Tool.run Tool.start
  simp only
  rw [b.locate_fill]
  simp only [b.enter_fill, hcell]
  rfl

/-! ## Collecting the artifacts -/

/-- **Collecting an artifact** is told by the entry of the workspace, unless its path cannot be looked up. -/
theorem collect_fill (more : List (FileName × Node)) (a : Artifact) :
    a.collect w (σ.fill more) =
      match a.barrier? w (find? name more) with
      | some e => .error e
      | none => .ok (a.ofCell w (find? name more)) := by
  have hname : Content.ofText a.fileName ≠ Content.ofText ".." := by cases a <;> decide
  have hshort : ¬FileTree.maxName < Content.size a.fileName := by cases a <;> decide
  have hlocate := b.locate_child hname more
  unfold Artifact.collect Artifact.barrier?
  rw [show a.path w = w.path.child (Content.ofText a.fileName) from rfl, hlocate]
  by_cases hlong : FileTree.maxPath < (w.path.child (Content.ofText a.fileName)).content.size
  · simp only [if_pos hlong]
    rfl
  · simp only [if_neg hlong, if_neg hshort]
    cases henter : Kind.enter ((find? name more).map Node.kind) with
    | error fault =>
      rw [a.ofCell_of_enter henter]
      by_cases habsent : fault.meansAbsent = true <;> simp [habsent]
    | ok _ =>
      unfold Artifact.ofCell
      rw [← FileName.ofContent_ofText, ← b.get?_child]
      rfl

theorem find_congr (hcell : find? name more = find? name more') :
    Artifacts.find w (σ.fill more) = Artifacts.find w (σ.fill more') := by
  have hall : ∀ as, Artifacts.findAll w (σ.fill more) as = Artifacts.findAll w (σ.fill more') as := by
    intro as
    induction as with
    | nil => rfl
    | cons a as ih => rw [Artifacts.findAll, Artifacts.findAll, b.collect_fill, b.collect_fill, hcell, ih]
  exact hall _

/-- **What is collected** is told by the entry of the workspace, unless a path cannot be looked up. -/
theorem artifacts_fill (more : List (FileName × Node)) :
    (Artifacts.find w (σ.fill more)).artifacts =
      match Artifact.all.findSome? (Artifact.barrier? w (find? name more)) with
      | some e => .error e
      | none => .ok (Artifacts.ofCell w (find? name more)) := by
  unfold Artifacts.find
  simp only [Artifact.all, Artifacts.findAll, b.collect_fill, List.findSome?]
  cases Artifact.demotedCode.barrier? w (find? name more) with
  | some e => rfl
  | none =>
    cases Artifact.memoryReport.barrier? w (find? name more) with
    | some e => rfl
    | none => cases Artifact.floatMap.barrier? w (find? name more) <;> rfl

/-! ## Giving the workspace up -/

/-- **Giving up a workspace** removes its entry as far as that can be removed. -/
theorem release_fill (retain : Bool) (more : List (FileName × Node)) :
    w.release retain (σ.fill more) =
      (σ.fill (assign name (w.cellReleased retain (find? name more)) more),
        w.releaseOf retain (find? name more)) := by
  have hsame : σ.fill (assign name (find? name more) more) = σ.fill more := fill_same more
  unfold Workspace.release Workspace.releaseOf Workspace.cellReleased
  cases retain with
  | true => simp [hsame]
  | false =>
    rw [b.node?_fill]
    cases hcell : find? name more with
    | none => rw [hcell] at hsame; simp [hsame]
    | some node =>
      rw [b.removeDirectory_fill hcell]
      cases hstays : node.stays? w.path with
      | none => simp [hstays]
      | some left => simp [hstays]

end Berth

end Demotion
