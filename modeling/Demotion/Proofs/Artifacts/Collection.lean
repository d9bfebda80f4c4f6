import Demotion.Proofs.Analysis.Outcome
import Demotion.Proofs.Text.WellFormed

/-!
# Artifacts are collected verbatim or reported

Each artifact is collected for itself. A file of well-formed UTF-8 is collected byte for byte, any other file is
reported under its name, and where there is no file nothing is. A file that cannot be opened is reported too,
whatever it holds. Only a path that cannot be looked up stands in the way, and then nothing at all is collected.

* `Collects`: what the artifacts that are collected of a workspace owe, given which files are good to be read.
* `findAll_error_iff`: looking up artifacts stops at the first that is out of reach.
* `collect_collects_iff`: **what is collected, and when every file of well-formed UTF-8 is.**
* `collect_fails_long_path`: an artifact of a workspace that was made can be out of reach.
-/

namespace Demotion

open Text

namespace Artifact

variable {w : Workspace} {t : FileTree} {a : Artifact}

/-- The path of an artifact cannot be looked up, which does not just say that there is nothing. -/
def OutOfReach (w : Workspace) (t : FileTree) (a : Artifact) (e : FileError) : Prop :=
  ∃ fault, t.locate (a.path w) = .error fault ∧ fault.meansAbsent = false ∧ e = FileTree.refused fault (a.path w)

/-- The path of an artifact can be looked up. -/
def InReach (w : Workspace) (t : FileTree) (a : Artifact) : Prop :=
  ∀ e, ¬a.OutOfReach w t e

/-- The file in place of an artifact can be opened and holds well-formed UTF-8. -/
def Readable (w : Workspace) (t : FileTree) (a : Artifact) (bytes : List UInt8) : Prop :=
  t.file? (a.path w) = some bytes ∧ Utf8.WellFormed bytes

theorem collect_eq_error {e : FileError} : a.collect w t = .error e ↔ a.OutOfReach w t e := by
  unfold collect OutOfReach
  cases hloc : t.locate (a.path w) with
  | error fault =>
    cases hfault : fault.meansAbsent with
    | true => simp [hfault]
    | false =>
      simp only [hfault, Bool.false_eq_true, if_false, Except.error.injEq, exists_eq_left', true_and]
      exact eq_comm
  | ok place => simp

/-- The text of well-formed bytes. -/
theorem exists_text_iff {bytes : List UInt8} :
    (∃ text : String, bytes = Utf8.encode text.toList) ↔ Utf8.WellFormed bytes := by
  rw [Utf8.wellFormed_iff]
  constructor
  · rintro ⟨text, h⟩
    exact ⟨text.toList, h⟩
  · rintro ⟨s, h⟩
    exact ⟨String.ofList s, by rw [String.toList_ofList]; exact h⟩

theorem error?_reading_isSome :
    ((a.reading w t).error? a).isSome = true ↔
      ∃ bytes, t.stored? (a.path w) = some bytes ∧ ¬a.Readable w t bytes := by
  rw [← Option.ne_none_iff_isSome, Ne, error?_reading]
  unfold Readable
  simp only [exists_text_iff, not_forall, exists_prop]

/-- An error names the file. -/
theorem fileName_prefix_of_error? {r : Reading} {e : String} (h : r.error? a = some e) :
    (a.fileName ++ ": ").toList <+: e.toList := by
  cases r with
  | unreadable fault =>
    obtain rfl := Option.some.inj h
    rw [String.toList_append (t := fault.message)]
    exact List.prefix_append _ _
  | _ => cases h

end Artifact

namespace Artifacts

variable {w : Workspace} {t : FileTree}

/-- The text that was collected of an artifact. -/
def textOf (found : Artifacts) : Artifact → Option String
  | .demotedCode => found.demotedCode
  | .memoryReport => found.memoryReport
  | .floatMap => found.floatMap

/-- What the artifacts that are collected of a workspace owe to its files, of which some are good to be read. -/
structure Collects (w : Workspace) (t : FileTree) (good : Artifact → List UInt8 → Prop) (found : Artifacts) :
    Prop where
  /-- Of a file there is a text exactly if it is good. -/
  isSome_iff : ∀ (a : Artifact) (bytes : List UInt8), t.stored? (a.path w) = some bytes →
    ((found.textOf a).isSome = true ↔ good a bytes)
  /-- The text is encoded as the bytes of the file. -/
  verbatim : ∀ (a : Artifact) (bytes : List UInt8) (text : String), t.stored? (a.path w) = some bytes →
    found.textOf a = some text → Utf8.encode text.toList = bytes
  /-- Where there is no file there is no text. -/
  absent : ∀ a : Artifact, t.stored? (a.path w) = none → found.textOf a = none
  /-- The files that are not good are reported, each once, in the order of the artifacts and under its name.
  Nothing else is reported. -/
  reported : ∃ bad : List Artifact, bad.Sublist Artifact.all ∧
    (∀ a, a ∈ bad ↔ ∃ bytes, t.stored? (a.path w) = some bytes ∧ ¬good a bytes) ∧
    List.Forall₂ (fun a e => (Artifact.fileName a ++ ": ").toList <+: e.toList) bad found.readErrors

theorem textOf_readable (a : Artifact) : (readable w t).textOf a = (a.reading w t).text? := by
  cases a <;> rfl

/-- What is filtered through a partial function, with the values. -/
theorem forall₂_filterMap {α β : Type} (f : α → Option β) (as : List α) :
    List.Forall₂ (fun a b => f a = some b) (as.filter fun a => (f a).isSome) (as.filterMap f) := by
  induction as with
  | nil => exact .nil
  | cons a as ih =>
    cases hf : f a with
    | none => simpa [List.filterMap_cons, hf] using ih
    | some b =>
      rw [List.filterMap_cons_some hf, List.filter_cons_of_pos (by rw [hf]; rfl)]
      exact .cons hf ih

/-- **What there is to be read is collected as it should be.** -/
theorem readable_collects (w : Workspace) (t : FileTree) :
    Collects w t (fun a bytes => a.Readable w t bytes) (readable w t) where
  isSome_iff := by
    intro a bytes hstored
    rw [textOf_readable, Option.isSome_iff_exists]
    simp only [Artifact.text?_reading]
    constructor
    · rintro ⟨text, hfile⟩
      obtain rfl : bytes = Utf8.encode text.toList := by
        rw [FileTree.stored?_of_file? hfile] at hstored
        exact (Option.some.inj hstored).symm
      exact ⟨hfile, Artifact.exists_text_iff.1 ⟨text, rfl⟩⟩
    · rintro ⟨hfile, hwell⟩
      obtain ⟨text, rfl⟩ := Artifact.exists_text_iff.2 hwell
      exact ⟨text, hfile⟩
  verbatim := by
    intro a bytes text hstored htext
    rw [textOf_readable, Artifact.text?_reading] at htext
    rw [FileTree.stored?_of_file? htext] at hstored
    exact Option.some.inj hstored
  absent := by
    intro a hstored
    rw [textOf_readable]
    apply Option.eq_none_iff_forall_ne_some.2
    intro text htext
    rw [Artifact.text?_reading] at htext
    rw [FileTree.stored?_of_file? htext] at hstored
    cases hstored
  reported := by
    refine ⟨Artifact.all.filter fun a => ((a.reading w t).error? a).isSome, List.filter_sublist, ?_, ?_⟩
    · intro a
      rw [List.mem_filter, Artifact.error?_reading_isSome]
      exact ⟨And.right, fun h => ⟨a.mem_all, h⟩⟩
    · have herrors := forall₂_filterMap (fun a : Artifact => (a.reading w t).error? a) Artifact.all
      exact herrors.imp fun a e he => Artifact.fileName_prefix_of_error? he

/-- Only the files that are good matter, and only where there are files. -/
theorem Collects.congr {good good' : Artifact → List UInt8 → Prop} {found : Artifacts}
    (h : Collects w t good found)
    (hgood : ∀ a bytes, t.stored? (Artifact.path a w) = some bytes → (good a bytes ↔ good' a bytes)) :
    Collects w t good' found where
  isSome_iff a bytes hstored := (h.isSome_iff a bytes hstored).trans (hgood a bytes hstored)
  verbatim := h.verbatim
  absent := h.absent
  reported := by
    obtain ⟨bad, hsublist, hbad, hnamed⟩ := h.reported
    refine ⟨bad, hsublist, fun a => (hbad a).trans ?_, hnamed⟩
    exact exists_congr fun bytes => and_congr_right fun hstored => not_congr (hgood a bytes hstored)

/-! ## Out of reach -/

/-- **Looking up artifacts stops at the first that is out of reach.** -/
theorem findAll_error_iff {as : List Artifact} {e : FileError} :
    (findAll w t as).error = some e ↔ ∃ before a after, as = before ++ a :: after ∧
      (∀ b ∈ before, b.InReach w t) ∧ a.OutOfReach w t e := by
  induction as with
  | nil => simp [findAll]
  | cons x as ih =>
    rw [findAll]
    cases hcollect : x.collect w t with
    | error e' =>
      have hx := Artifact.collect_eq_error.1 hcollect
      constructor
      · intro h
        obtain rfl := Option.some.inj h
        exact ⟨[], x, as, rfl, fun b hb => absurd hb List.not_mem_nil, hx⟩
      · rintro ⟨before, a, after, has, hbefore, ha⟩
        cases before with
        | nil =>
          obtain ⟨rfl, -⟩ := List.cons.inj has
          rw [Artifact.collect_eq_error.2 ha] at hcollect
          rw [Except.error.inj hcollect]
        | cons b before =>
          obtain ⟨rfl, -⟩ := List.cons.inj has
          exact absurd hx (hbefore _ List.mem_cons_self e')
    | ok r =>
      have hx : x.InReach w t := by
        intro e' hx
        rw [Artifact.collect_eq_error.2 hx] at hcollect
        cases hcollect
      show (findAll w t as).error = some e ↔ _
      rw [ih]
      constructor
      · rintro ⟨before, a, after, rfl, hbefore, ha⟩
        refine ⟨x :: before, a, after, rfl, ?_, ha⟩
        intro b hb
        rcases List.mem_cons.1 hb with rfl | hb
        · exact hx
        · exact hbefore b hb
      · rintro ⟨before, a, after, has, hbefore, ha⟩
        cases before with
        | nil => obtain ⟨rfl, -⟩ := List.cons.inj has; exact absurd ha (hx e)
        | cons b before =>
          obtain ⟨rfl, rfl⟩ := List.cons.inj has
          exact ⟨before, a, after, rfl, fun b hb => hbefore b (List.mem_cons_of_mem _ hb), ha⟩

theorem collect_eq_error {e : FileError} :
    collect w t = .error e ↔ ∃ before a after, Artifact.all = before ++ a :: after ∧
      (∀ b ∈ before, b.InReach w t) ∧ a.OutOfReach w t e := by
  rw [← findAll_error_iff]
  unfold collect Found.artifacts find
  cases (findAll w t Artifact.all).error with
  | none => simp
  | some e' => simp

/-- If artifacts are out of reach, one of them is the first. -/
theorem exists_first_out_of_reach {as : List Artifact} {a : Artifact} (hmem : a ∈ as) (ha : ¬a.InReach w t) :
    ∃ before b after e, as = before ++ b :: after ∧ (∀ c ∈ before, Artifact.InReach w t c) ∧
      b.OutOfReach w t e := by
  induction as with
  | nil => cases hmem
  | cons x as ih =>
    by_cases hx : x.InReach w t
    · have hne : a ≠ x := by
        rintro rfl
        exact ha hx
      obtain ⟨before, b, after, e, rfl, hbefore, hb⟩ := ih (List.mem_of_ne_of_mem hne hmem)
      exact ⟨x :: before, b, after, e, rfl, List.forall_mem_cons.2 ⟨hx, hbefore⟩, hb⟩
    · unfold Artifact.InReach at hx
      push Not at hx
      obtain ⟨e, hx⟩ := hx
      exact ⟨[], x, as, e, rfl, fun c hc => absurd hc List.not_mem_nil, hx⟩

theorem inReach_of_collect {found : Artifacts} (h : collect w t = .ok found) (a : Artifact) : a.InReach w t := by
  by_contra ha
  obtain ⟨before, b, after, e, hall, hbefore, hb⟩ := exists_first_out_of_reach a.mem_all ha
  rw [collect_eq_error.2 ⟨before, b, after, hall, hbefore, hb⟩] at h
  cases h

/-- **The artifacts of a workspace are collected verbatim or reported**, each for itself. A file is good to be
read if it can be opened and holds well-formed UTF-8, and where something is collected, it is this. All files of
well-formed UTF-8 are good exactly if they can all be opened, and something is collected exactly if no artifact
is out of reach. Otherwise the first that is out of reach is the error. -/
theorem collect_collects_iff (w : Workspace) (t : FileTree) :
    (∀ found, collect w t = .ok found → Collects w t (fun a bytes => a.Readable w t bytes) found) ∧
      ((∃ found, collect w t = .ok found ∧ Collects w t (fun _ bytes => Utf8.WellFormed bytes) found) ↔
        (∀ a : Artifact, a.InReach w t) ∧ ∀ (a : Artifact) (bytes : List UInt8),
          t.stored? (a.path w) = some bytes → Utf8.WellFormed bytes → t.file? (a.path w) = some bytes) ∧
      ∀ e, collect w t = .error e ↔ ∃ before a after, Artifact.all = before ++ a :: after ∧
        (∀ b ∈ before, b.InReach w t) ∧ a.OutOfReach w t e := by
  have hcollects : ∀ found, collect w t = .ok found →
      Collects w t (fun a bytes => a.Readable w t bytes) found := by
    intro found h
    rw [collect_eq_ok h]
    exact readable_collects w t
  refine ⟨hcollects, ⟨?_, ?_⟩, fun e => collect_eq_error⟩
  · rintro ⟨found, hfound, hwell⟩
    refine ⟨inReach_of_collect hfound, fun a bytes hstored hbytes => ?_⟩
    have hsome := (hwell.isSome_iff a bytes hstored).2 hbytes
    exact (((hcollects found hfound).isSome_iff a bytes hstored).1 hsome).1
  · rintro ⟨hreach, hopen⟩
    cases hcollect : collect w t with
    | error e =>
      obtain ⟨before, a, after, -, -, ha⟩ := collect_eq_error.1 hcollect
      exact absurd ha (hreach a e)
    | ok found =>
      refine ⟨found, rfl, (hcollects found hcollect).congr fun a bytes hstored => ?_⟩
      exact ⟨And.right, fun hbytes => ⟨hopen a bytes hstored hbytes, hbytes⟩⟩

/-- **An artifact can be out of reach in a workspace that was made.** The path of the workspace leaves room for
the name of the source, but not for the longest name of an artifact, though there is no file of that name. -/
theorem collect_fails_long_path :
    ¬∀ (w : Workspace) (source : List UInt8) (t made : FileTree), w.acquire source t = (made, .ok w) →
      ∃ found, collect w made = .ok found ∧ Collects w made (fun _ bytes => Utf8.WellFormed bytes) found := by
  intro h
  obtain ⟨n, hn⟩ : ∃ n, n = 1356 := ⟨_, rfl⟩
  have hmax : FileTree.maxPath = 4095 := rfl
  have hacquire := Analysis.acquire_upward (n := n) (by omega)
  obtain ⟨found, hfound, -⟩ := h _ _ _ _ hacquire
  refine inReach_of_collect hfound .memoryReport _ ⟨.nameTooLong, ?_, rfl, rfl⟩
  have hsize : Content.size Artifact.memoryReport.fileName = 19 := by decide
  rw [FileTree.locate, if_pos]
  rw [Artifact.path, Analysis.size_child_upward, hsize]
  omega

end Artifacts

end Demotion
