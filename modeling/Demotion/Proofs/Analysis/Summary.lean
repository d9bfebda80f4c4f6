import Demotion.Proofs.Analysis.Diagnostics
import Demotion.Proofs.LineDiff.Patch
import Demotion.Proofs.MemoryReport.Meaning

/-!
# A summary agrees with what it sums up

A summary is made of parts of which each may be absent, empty or failed. What it counts is what the result shows:
records, lines that differ, and the byte figures of the report.

* `splitSafe_interleaved`: dividing records keeps each of them, and their order.
* `change_of_mem_compute`: which lines count as demotions.
* `summarize_eq_ok`: what a summary counts, told by its parts.
* `run_sumsUp`: **the summary of a result agrees with its details.**
-/

namespace Demotion

/-! ## Records -/

namespace FloatMap

/-- Two lists that have the members of a third between them: each member goes to one of the two, and keeps its
place among those that go there. -/
inductive Interleaved {α : Type} : List α → List α → List α → Prop where
  | nil : Interleaved [] [] []
  | left (a : α) {as bs all : List α} (h : Interleaved as bs all) : Interleaved (a :: as) bs (a :: all)
  | right (b : α) {as bs all : List α} (h : Interleaved as bs all) : Interleaved as (b :: bs) (b :: all)

theorem Interleaved.length {α : Type} {as bs all : List α} (h : Interleaved as bs all) :
    as.length + bs.length = all.length := by
  induction h with
  | nil => rfl
  | left a h ih => rw [List.length_cons, List.length_cons, ← ih]; omega
  | right b h ih => rw [List.length_cons, List.length_cons, ← ih]; omega

theorem splitSafe_eq (records : List Record) :
    splitSafe records = (records.filter (·.safe), records.filter (!·.safe)) :=
  List.partition_eq_filter_filter

theorem splitSafe_cons (record : Record) (records : List Record) :
    splitSafe (record :: records) =
      if record.safe = true then (record :: (splitSafe records).1, (splitSafe records).2)
      else ((splitSafe records).1, record :: (splitSafe records).2) := by
  rw [splitSafe_eq, splitSafe_eq]
  cases hsafe : record.safe <;> simp [hsafe]

/-- **Dividing records** keeps each of them once, and the order of those on either side. -/
theorem splitSafe_interleaved (records : List Record) :
    Interleaved (splitSafe records).1 (splitSafe records).2 records := by
  induction records with
  | nil => exact .nil
  | cons record records ih =>
    rw [splitSafe_cons]
    split
    · exact .left record ih
    · exact .right record ih

end FloatMap

/-! ## Lines -/

namespace LineDiff

theorem classify_eq_demotion {before after : List Char} :
    classify before after = .demotion ↔ "float".toList <:+: before ∧ "__fp16".toList <:+: after := by
  unfold classify
  rw [← MemoryReport.occurs_iff, ← MemoryReport.occurs_iff, ← Bool.and_eq_true]
  split
  · rename_i hboth
    exact iff_of_true rfl hboth
  · rename_i hnot
    exact iff_of_false nofun hnot

/-- **A line that differs counts as demoted** exactly if it had `float` in it and has `__fp16`. -/
theorem change_of_mem_compute {before after : String} {e : Entry} (h : e ∈ compute before after) :
    e.change = .demotion ↔ "float".toList <:+: e.before.toList ∧ "__fp16".toList <:+: e.after.toList := by
  obtain ⟨k, pair, -, -, rfl⟩ := mem_entriesFrom.1 h
  have hbefore : (entryOf (1 + k) pair).before.toList = pair.1 := String.toList_ofList
  have hafter : (entryOf (1 + k) pair).after.toList = pair.2 := String.toList_ofList
  rw [hbefore, hafter]
  exact classify_eq_demotion

/-- Every entry is of one of the two kinds. -/
theorem count_add_count (entries : List Entry) :
    count .demotion entries + count .other entries = entries.length := by
  have hother : ∀ e : Entry, (e.change = .other) ↔ ¬e.change = .demotion := by
    intro e
    cases e.change <;> simp
  unfold count
  simp only [hother]
  rw [List.length_eq_countP_add_countP (p := fun e : Entry => decide (e.change = .demotion))]
  simp only [decide_eq_true_eq]

end LineDiff

/-! ## Byte figures -/

namespace MemoryReport

theorem savings_saved {r : MemoryReport} {savings : Savings} (h : r.savings = .ok savings) :
    savings.saved = savings.before - savings.after := by
  unfold MemoryReport.savings at h
  split at h
  · cases h
  · split at h
    · cases h
    · split at h
      · cases h
      · cases h
        rfl

end MemoryReport

namespace Analysis

/-! ## Summaries -/

theorem Step.outcome?_eq_some {α : Type} {step : Step α} {v : α} :
    step.outcome? = some v ↔ step = some (.ok v) := by
  rcases step with _ | (reason | w)
  · exact iff_of_false nofun nofun
  · exact iff_of_false nofun nofun
  · unfold outcome?
    simp

/-- A step that gives something was not made to fail. -/
theorem unlessMade_eq_ok {α : Type} {fault : Option String} {result : Unit → Except String α} {v : α}
    (h : unlessMade fault result = .ok v) : result () = .ok v := by
  cases fault with
  | none => exact h
  | some reason => cases h

/-- **A summary agrees with a result.** What is absent counts as nothing. -/
structure SumsUp (r : Result) (m : Summary) : Prop where
  /-- Records are counted by whether they are safe, and each is counted once. -/
  safe : m.safeCount = ((r.jsonAnalysis.getD []).filter (·.safe)).length
  notSafe : m.unsafeCount = ((r.jsonAnalysis.getD []).filter (!·.safe)).length
  records : m.safeCount + m.unsafeCount = (r.jsonAnalysis.getD []).length
  /-- They are divided in order, without loss and without repetition. -/
  divided : ∀ as bs, FloatMap.splitSafe (r.jsonAnalysis.getD []) = (as, bs) →
    FloatMap.Interleaved as bs (r.jsonAnalysis.getD []) ∧ (∀ x ∈ as, x.safe = true) ∧ ∀ x ∈ bs, x.safe = false
  /-- Lines that differ are counted by their kind, and each is counted once. -/
  demotions : m.demotionLines = ((r.differences.getD []).filter (·.change = .demotion)).length
  others : m.otherLines = ((r.differences.getD []).filter (·.change = .other)).length
  lines : m.demotionLines + m.otherLines = (r.differences.getD []).length
  /-- Those with `float` before and `__fp16` after are the demotions. -/
  kinds : ∀ e ∈ r.differences.getD [], e.change = .demotion ↔
    "float".toList <:+: e.before.toList ∧ "__fp16".toList <:+: e.after.toList
  /-- There are byte figures exactly if there is a report, and they are those of the report. -/
  memory : m.memory.isSome ↔ r.memoryReport.isSome
  figures : ∀ savings, m.memory = some savings →
    savings.saved = savings.before - savings.after ∧ ∃ report, r.memoryReport = some report ∧
      report.savings = .ok savings

/-- What a summary counts, told by its parts. -/
theorem summarize_eq_ok {records : List FloatMap.Record} {report : Option MemoryReport}
    {differences : List LineDiff.Entry} {m : Summary} (h : summarize records report differences = .ok m) :
    m.safeCount = (FloatMap.splitSafe records).1.length ∧ m.unsafeCount = (FloatMap.splitSafe records).2.length ∧
      m.demotionLines = LineDiff.count .demotion differences ∧ m.otherLines = LineDiff.count .other differences ∧
      (report = none ∧ m.memory = none ∨
        ∃ present savings, report = some present ∧ present.savings = .ok savings ∧ m.memory = some savings) := by
  unfold summarize at h
  cases report with
  | none =>
    cases h
    exact ⟨rfl, rfl, rfl, rfl, Or.inl ⟨rfl, rfl⟩⟩
  | some present =>
    cases hsavings : present.savings with
    | error e => simp only [hsavings] at h; cases h
    | ok savings =>
      simp only [hsavings] at h
      cases h
      exact ⟨rfl, rfl, rfl, rfl, Or.inr ⟨present, savings, rfl, hsavings, rfl⟩⟩

/-- A comparison that was made has the lines in which the source and the demoted code differ. -/
theorem comparison_eq_some {p : Parts} {faults : Faults} {entries : List LineDiff.Entry}
    (h : (p.comparison faults).outcome? = some entries) :
    ∃ demoted, entries = LineDiff.compute p.source demoted := by
  rw [Step.outcome?_eq_some] at h
  obtain ⟨demoted, -, hmade⟩ := Option.map_eq_some_iff.1 h
  have hcompared := unlessMade_eq_ok hmade
  exact ⟨demoted, (Except.ok.inj hcompared).symm⟩

theorem kinds_of_comparison {p : Parts} {faults : Faults} {e : LineDiff.Entry}
    (h : e ∈ (p.comparison faults).outcome?.getD []) : e.change = .demotion ↔
      "float".toList <:+: e.before.toList ∧ "__fp16".toList <:+: e.after.toList := by
  cases hmade : (p.comparison faults).outcome? with
  | none => rw [hmade] at h; cases h
  | some entries =>
    rw [hmade, Option.getD_some] at h
    obtain ⟨demoted, rfl⟩ := comparison_eq_some hmade
    exact LineDiff.change_of_mem_compute h

/-- **The summary that parts make agrees with the result that they make.** -/
theorem aggregate_sumsUp {p : Parts} {faults : Faults} {m : Summary}
    (h : (p.aggregate faults).1.summary = some m) : SumsUp (p.aggregate faults).1 m := by
  obtain ⟨differences, hdifferences⟩ : ∃ d, d = (p.comparison faults).outcome? := ⟨_, rfl⟩
  -- only a summary that was asked for and did not fail is in the result
  have hstep : p.summary faults differences = some (.ok m) := by
    rw [hdifferences]
    exact Step.outcome?_eq_some.1 h
  have hsummary : summarize (p.records.getD []) p.report (differences.getD []) = .ok m := by
    unfold Parts.summary at hstep
    split at hstep
    · exact unlessMade_eq_ok (Option.some.inj hstep)
    · cases hstep
  have hjson : (p.aggregate faults).1.jsonAnalysis = p.records := rfl
  have hreport : (p.aggregate faults).1.memoryReport = p.report := rfl
  have hshown : (p.aggregate faults).1.differences = differences := hdifferences.symm
  obtain ⟨hsafe, hnot, hdemotions, hothers, hmemory⟩ := summarize_eq_ok hsummary
  rw [FloatMap.splitSafe_eq] at hsafe hnot
  constructor
  case safe => rw [hjson, hsafe]
  case notSafe => rw [hjson, hnot]
  case records =>
    have hlength := (FloatMap.splitSafe_interleaved (p.records.getD [])).length
    rw [FloatMap.splitSafe_eq] at hlength
    rw [hjson, hsafe, hnot, hlength]
  case divided =>
    intro as bs hsplit
    have hinterleaved := FloatMap.splitSafe_interleaved (p.records.getD [])
    rw [hjson] at hsplit ⊢
    rw [hsplit] at hinterleaved
    rw [FloatMap.splitSafe_eq, Prod.mk.injEq] at hsplit
    refine ⟨hinterleaved, ?_, ?_⟩
    · intro x hx
      rw [← hsplit.1] at hx
      exact (List.mem_filter.1 hx).2
    · intro x hx
      rw [← hsplit.2] at hx
      simpa using (List.mem_filter.1 hx).2
  case demotions => rw [hshown, hdemotions, LineDiff.count, List.countP_eq_length_filter]
  case others => rw [hshown, hothers, LineDiff.count, List.countP_eq_length_filter]
  case lines => rw [hshown, hdemotions, hothers, LineDiff.count_add_count]
  case kinds =>
    intro e he
    rw [hshown, hdifferences] at he
    exact kinds_of_comparison he
  case memory =>
    rw [hreport]
    rcases hmemory with ⟨hnone, hnothing⟩ | ⟨present, savings, hpresent, -, hsome⟩
    · rw [hnone, hnothing]
      exact iff_of_false nofun nofun
    · rw [hpresent, hsome]
      exact iff_of_true rfl rfl
  case figures =>
    intro savings hsavings
    rcases hmemory with ⟨-, hnothing⟩ | ⟨present, figures, hpresent, hfigures, hsome⟩
    · rw [hnothing] at hsavings
      cases hsavings
    · obtain rfl : figures = savings := Option.some.inj (hsome.symm.trans hsavings)
      exact ⟨MemoryReport.savings_saved hfigures, present, hreport.trans hpresent, hfigures⟩

/-! ## Whole analyses -/

/-- An analysis that first makes the directory of all workspaces gives the result of one in it. -/
theorem runAlone_eq_ok {job : Job} {s : Settings} {t : FileTree} {r : Result}
    (h : (job.runAlone s t).result = .ok r) :
    ∃ ws tree, (job.run s ws tree).result = .ok r := by
  unfold Job.runAlone at h
  rcases hprepare : (Workspaces.ofSettings s).prepare t with ⟨tree, failure | ws⟩
  · simp only [hprepare] at h
    cases h
  · simp only [hprepare] at h
    exact ⟨ws, tree, h⟩

/-- **The summary of a result agrees with its details**, whatever the tool left, which artifacts there are, what
they hold and which steps were made to fail, whether the analysis shares the directory of all workspaces or makes
it. -/
theorem run_sumsUp {job : Job} {s : Settings} {ws : Workspaces} {t : FileTree} {r : Result} {m : Summary}
    (h : (job.run s ws t).result = .ok r ∨ (job.runAlone s t).result = .ok r) (hm : r.summary = some m) :
    SumsUp r m := by
  obtain ⟨ws, tree, hrun⟩ : ∃ ws tree, (job.run s ws tree).result = .ok r := by
    rcases h with h | h
    · exact ⟨ws, t, h⟩
    · exact runAlone_eq_ok h
  obtain ⟨_, invocation, -, -, hr⟩ := run_eq_ok hrun
  rw [aggregate_eq] at hr
  rw [hr] at hm ⊢
  exact aggregate_sumsUp hm

/-- A tool that demotes one of two lines that it changes, judges one value of two safe, and leaves byte
figures. -/
def mixing : ToolRun where
  effect _ _ := some (.directory [("demoted.c", .file (Text.Utf8.encode "__fp16 x;\nint  y;".toList)),
    ("memory_analysis.txt",
      .file (Text.Utf8.encode "MEMORY USAGE:\nOriginal memory usage: 4\nAfter demotion: 6".toList)),
    ("float_map.json", .file (Text.Utf8.encode
      ("[\x7b\"value\":\"1.0\",\"location\":\"a\",\"safe\":false\x7d,".toList ++
        "\x7b\"value\":\"2.0\",\"location\":\"b\",\"safe\":true\x7d]".toList)))])
  stdout := []
  stderr := []
  ending := .exited 1
  duration := .finite false 0 0

/-- An analysis with this tool. -/
def mixingJob : Job :=
  ⟨Text.Utf8.encode "float x;\nint y;".toList, "x.c", roomyHost, .present mixing, "id1", .none⟩

theorem run_sumsUp_mixing : ∃ r m,
    (mixingJob.run {} bareWorkspaces bareTree).result = .ok r ∧ r.summary = some m ∧
    (m.safeCount, m.unsafeCount, m.memory.map (·.saved)) = (1, 1, some (-2)) ∧ SumsUp r m := by
  have hrun : ((mixingJob.run {} bareWorkspaces bareTree).result.toOption.bind (·.summary)).map (fun m =>
      (m.safeCount, m.unsafeCount, m.memory.map (·.saved))) = some (1, 1, some (-2)) := by
    decide +kernel
  obtain ⟨m, hm, hcounts⟩ := Option.map_eq_some_iff.1 hrun
  obtain ⟨r, hr, hsummary⟩ := Option.bind_eq_some_iff.1 hm
  cases hresult : (mixingJob.run {} bareWorkspaces bareTree).result with
  | error failure => rw [hresult] at hr; cases hr
  | ok r' =>
    rw [hresult] at hr
    obtain rfl : r' = r := Option.some.inj hr
    exact ⟨r', m, rfl, hsummary, hcounts, run_sumsUp (Or.inl hresult) hsummary⟩

end Analysis

end Demotion
