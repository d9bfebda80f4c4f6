import Demotion.Log.Delivery
import Demotion.Proofs.FileTree.Growth

/-!
# What a log does to the files

Setting up a log makes its file, and from then on the file is there. So delivering entries changes what one file
holds and nothing else.

* `Setup.Ready`: the files of a setup are there.
* `setUp_ok_iff`, `setUp_eq_ok`: when a setup succeeds; it lets the files grow, and makes its own ready.
* `writeTo_file`: **what is written to the file of a log goes to its end, and to no other file.**
* `sameKinds_deliver`: **delivering entries leaves the files looking alike.**
-/

namespace Demotion.Log

variable {s : Setup} {t t' : FileTree}

theorem start_filePath (t : FileTree) (name : String) : (filePath t name).start ≠ .here := by
  unfold filePath
  simp only
  split
  · intro h; cases h
  · rename_i hstart; exact hstart

theorem filePath_congr (h : t.working = t'.working) (name : String) : filePath t name = filePath t' name := by
  unfold filePath
  rw [h]

/-- A handler has a file that is there, or none. -/
def Handler.Ready (t : FileTree) : Handler → Prop
  | .console => True
  | .file name => ∃ content, t.readFile (filePath t name) = .ok content

/-- The files of a setup are there. -/
def Setup.Ready (s : Setup) (t : FileTree) : Prop :=
  ∀ h ∈ s.handlers, h.Ready t

theorem Setup.Ready.of_extends (h : s.Ready t) (hextends : t.Extends t') : s.Ready t' := by
  intro handler hmem
  have hready := h handler hmem
  cases handler with
  | console => trivial
  | file name =>
    obtain ⟨content, hcontent⟩ := hready
    refine ⟨content, ?_⟩
    rw [← filePath_congr hextends.working]
    exact hextends.readFile hcontent

theorem Handler.Ready.of_sameKinds {handler : Handler} (h : handler.Ready t) (halike : t.SameKinds t') :
    handler.Ready t' := by
  cases handler with
  | console => trivial
  | file name =>
    obtain ⟨content, hcontent⟩ := h
    obtain ⟨content', hcontent'⟩ := halike.readFile hcontent
    refine ⟨content', ?_⟩
    rw [← filePath_congr halike.working]
    exact hcontent'

/-- A setup succeeds if its file can be opened and its word names a level. -/
theorem setUp_ok_iff {old : Setup} {word : String} {file : Option String} :
    setUp old word file t = .ok (s, t') ↔
      openFile file t = .ok t' ∧ ∃ level, levelNamed word = .ok level ∧ s = old.configure level file := by
  unfold setUp
  cases openFile file t with
  | error e => exact iff_of_false nofun fun h => nomatch h.1
  | ok tree =>
    cases levelNamed word with
    | error e => exact iff_of_false nofun fun h => nomatch h.2.choose_spec.1
    | ok level =>
      simp only [Except.ok.injEq, Prod.mk.injEq, exists_eq_left']
      exact ⟨fun h => ⟨h.2, h.1.symm⟩, fun h => ⟨h.2.symm, h.1⟩⟩

/-- **Setting up a log** lets the files grow, and afterwards its own are there. -/
theorem setUp_eq_ok {old : Setup} {word : String} {file : Option String}
    (h : setUp old word file t = .ok (s, t')) :
    t.Extends t' ∧ s.Ready t' := by
  obtain ⟨hopen, level, -, rfl⟩ := setUp_ok_iff.1 h
  have hhandlers : (old.configure level file).handlers = Setup.handlersFor file := rfl
  unfold Setup.Ready
  rw [hhandlers]
  -- a file is made only if it has a name
  unfold openFile at hopen
  unfold Setup.handlersFor
  cases file with
  | none =>
    cases hopen
    refine ⟨.refl t, fun handler hmem => ?_⟩
    obtain rfl := List.mem_singleton.1 hmem
    trivial
  | some name =>
    simp only at hopen ⊢
    split at hopen
    · rename_i hname
      cases hopen
      refine ⟨.refl t, fun handler hmem => ?_⟩
      rw [if_pos hname] at hmem
      obtain rfl := List.mem_singleton.1 hmem
      trivial
    · rename_i hname
      split at hopen
      · cases hopen
      · cases happend : appendTo t name "" with
        | error e => rw [happend] at hopen; cases hopen
        | ok made =>
          rw [happend] at hopen
          cases hopen
          obtain ⟨hextends, content, hcontent⟩ := FileTree.extends_appendFile (start_filePath t name) happend
          refine ⟨hextends, fun handler hmem => ?_⟩
          rw [if_neg hname, List.mem_cons, List.mem_singleton] at hmem
          rcases hmem with rfl | rfl
          · trivial
          · refine ⟨content, ?_⟩
            rw [← filePath_congr hextends.working]
            exact hcontent

/-- What is written to a file of the log that is there goes to its end, and to no other file. -/
theorem writeTo_file (time : String) (log : List Entry) {name : String} {content : List UInt8}
    (h : t.readFile (filePath t name) = .ok content) :
    t.SameKinds (writeTo s time log t (.file name)) ∧
      (writeTo s time log t (.file name)).readFile (filePath t name) =
        .ok (content ++ Text.Utf8.encode (s.text time (.file name) log).toList) ∧
      ∀ p, t.locate p ≠ t.locate (filePath t name) →
        (writeTo s time log t (.file name)).readFile p = t.readFile p := by
  obtain ⟨tree, happend, hwritten⟩ := FileTree.appendFile_of_readFile h
    (Text.Utf8.encode (s.text time (.file name) log).toList)
  have hwrite : writeTo s time log t (.file name) = tree := by
    unfold writeTo appendTo
    simp only [happend]
  rw [hwrite]
  exact hwritten

theorem sameKinds_writeTo (time : String) (log : List Entry) {handler : Handler} (h : handler.Ready t) :
    t.SameKinds (writeTo s time log t handler) := by
  cases handler with
  | console => exact .refl t
  | file name =>
    obtain ⟨content, hcontent⟩ := h
    exact (writeTo_file time log hcontent).1

/-- **Delivering entries** changes what the files of the log hold and nothing else. -/
theorem sameKinds_deliver (time : String) (log : List Entry) (h : s.Ready t) :
    t.SameKinds (deliver s time log t) := by
  unfold deliver
  unfold Setup.Ready at h
  generalize s.handlers = handlers at h
  induction handlers generalizing t with
  | nil => exact .refl t
  | cons handler handlers ih =>
    have hfirst := sameKinds_writeTo (s := s) time log (h handler List.mem_cons_self)
    rw [List.foldl_cons]
    -- the files of the handlers after it are still there
    refine hfirst.trans (ih fun other hmem => ?_)
    exact (h other (List.mem_cons_of_mem _ hmem)).of_sameKinds hfirst

theorem Setup.Ready.deliver (h : s.Ready t) (time : String) (log : List Entry) : s.Ready (deliver s time log t) :=
  fun handler hmem => (h handler hmem).of_sameKinds (sameKinds_deliver time log h)

end Demotion.Log
