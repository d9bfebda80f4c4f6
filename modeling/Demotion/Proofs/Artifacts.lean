import Demotion.Artifacts
import Demotion.Proofs.Text.Utf8

/-!
# What is collected

Collecting never loses an artifact without a word. The text that is collected of an artifact is the one whose
UTF-8 its file holds. A file that cannot be opened or holds no UTF-8 becomes a reading error, and nothing else
does.

* `FileTree.stored?`: the bytes of a file, whether it can be opened or not.
* `Artifact.reading`: what there is to be read of an artifact, told by what is found at its path alone.
* `text?_reading`, `error?_reading`: when that is a text, and when it is an error.
* `collect_eq_ok`: **what is collected is what there is to be read.**
-/

namespace Demotion

open Text

/-- The bytes of the file that a path leads to, whether it can be opened or not. -/
def FileTree.stored? (t : FileTree) (p : FilePath) : Option (List UInt8) :=
  match t.node? p with
  | some (.file bytes) => some bytes
  | some (.closed (.file bytes) _) => some bytes
  | _ => none

theorem FileTree.stored?_of_file? {t : FileTree} {p : FilePath} {bytes : List UInt8}
    (h : t.file? p = some bytes) : t.stored? p = some bytes := by
  unfold file? at h
  unfold stored?
  split at h
  · rename_i hnode
    rw [hnode]
    exact h
  · cases h

namespace Artifact

variable {w : Workspace} {t : FileTree} {a : Artifact}

theorem mem_all (a : Artifact) : a ∈ all := by
  cases a <;> decide

/-- What there is to be read of an artifact. -/
def reading (w : Workspace) (t : FileTree) (a : Artifact) : Reading :=
  ofFound (a.path w) (t.node? (a.path w))

theorem collect_reading {r : Reading} (h : a.collect w t = .ok r) : r = a.reading w t := by
  unfold collect at h
  unfold reading FileTree.node?
  cases hloc : t.locate (a.path w) with
  | error fault =>
    simp only [hloc] at h ⊢
    split at h
    · cases h; rfl
    · cases h
  | ok place =>
    rw [hloc] at h
    exact (Except.ok.inj h).symm

theorem text?_ofBytes {bytes : List UInt8} {text : String} :
    (ofBytes bytes).text? = some text ↔ bytes = Utf8.encode text.toList := by
  rw [← Utf8.decode_iff]
  unfold ofBytes
  cases Utf8.decode bytes with
  | error e => simp [Reading.text?]
  | ok s =>
    simp only [Reading.text?, Option.some.injEq, Except.ok.injEq]
    constructor
    · intro h; rw [← h, String.toList_ofList]
    · intro h; rw [h, String.ofList_toList]

theorem error?_ofBytes {bytes : List UInt8} :
    (ofBytes bytes).error? a = none ↔ ∃ text, (ofBytes bytes).text? = some text := by
  unfold ofBytes
  cases Utf8.decode bytes with
  | error e => simp [Reading.text?, Reading.error?]
  | ok s => simp [Reading.text?, Reading.error?]

/-- **The text of an artifact** is that whose UTF-8 its file holds, if the file can be opened. -/
theorem text?_reading {text : String} :
    (a.reading w t).text? = some text ↔ t.file? (a.path w) = some (Utf8.encode text.toList) := by
  unfold reading FileTree.file?
  rcases t.node? (a.path w) with _ | (bytes | es | ⟨_ | _ | _, fault⟩ | n)
  case some.file => simp [ofFound, text?_ofBytes]
  all_goals simp [ofFound, Reading.text?]

/-- **The error of an artifact** is that its file cannot be opened, or holds no UTF-8. -/
theorem error?_reading :
    (a.reading w t).error? a = none ↔ ∀ bytes, t.stored? (a.path w) = some bytes →
      t.file? (a.path w) = some bytes ∧ ∃ text : String, bytes = Utf8.encode text.toList := by
  unfold reading FileTree.file? FileTree.stored?
  rcases t.node? (a.path w) with _ | (bytes | es | ⟨_ | _ | _, fault⟩ | n)
  case some.file => simp [ofFound, error?_ofBytes, text?_ofBytes]
  all_goals simp [ofFound, Reading.error?]

end Artifact

namespace Artifacts

variable {w : Workspace} {t : FileTree}

/-- The artifacts that there are to be read. -/
def readable (w : Workspace) (t : FileTree) : Artifacts where
  demotedCode := (Artifact.demotedCode.reading w t).text?
  memoryReport := (Artifact.memoryReport.reading w t).text?
  floatMap := (Artifact.floatMap.reading w t).text?
  readErrors := Artifact.all.filterMap fun a => (a.reading w t).error? a

theorem findAll_readings (as : List Artifact) (h : (findAll w t as).error = none) :
    (findAll w t as).readings = as.map fun a => (a, a.reading w t) := by
  induction as with
  | nil => rfl
  | cons a as ih =>
    rw [findAll] at h ⊢
    cases hcollect : a.collect w t with
    | error e => rw [hcollect] at h; cases h
    | ok r =>
      rw [hcollect] at h
      simp only [List.map_cons, ih h, Artifact.collect_reading hcollect]

/-- **What is collected is what there is to be read.** -/
theorem collect_eq_ok {artifacts : Artifacts} (h : collect w t = .ok artifacts) : artifacts = readable w t := by
  unfold collect Found.artifacts at h
  cases herror : (find w t).error with
  | some e => rw [herror] at h; cases h
  | none =>
    rw [herror] at h
    have hreadings : (find w t).readings = Artifact.all.map fun a => (a, a.reading w t) :=
      findAll_readings Artifact.all herror
    have htext : ∀ a, (find w t).text? a = (a.reading w t).text? := by
      intro a
      unfold Found.text?
      rw [hreadings]
      cases a <;> rfl
    have herrors : (find w t).readings.filterMap (fun r => r.2.error? r.1) =
        Artifact.all.filterMap fun a => (a.reading w t).error? a := by
      rw [hreadings, List.filterMap_map]
      rfl
    simp only [htext, herrors, Except.ok.injEq] at h
    exact h.symm

/-- There is no reading error exactly if every file in place of an artifact can be opened and holds UTF-8. -/
theorem readErrors_readable :
    (readable w t).readErrors = [] ↔ ∀ (a : Artifact) (bytes : List UInt8), t.stored? (a.path w) = some bytes →
      t.file? (a.path w) = some bytes ∧ ∃ text : String, bytes = Utf8.encode text.toList := by
  simp only [readable, List.filterMap_eq_nil_iff, Artifact.error?_reading]
  constructor
  · intro h a
    exact h a a.mem_all
  · intro h a _
    exact h a

end Artifacts

end Demotion
