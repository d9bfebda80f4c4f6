import Demotion.Proofs.MemoryReport.Blocks
import Demotion.Proofs.MemoryReport.Keys

/-!
# Memory reports in print

A report is printed section by section: the header of the section on a line of its own, and then a line
`key: value` for each entry. Whatever text a report was read from, its print is read as the same report: no
entry can look like a header, be cut at another colon or break into two lines, because none of this is left of
the line that it was read from.

* `IsEntry`: what an entry can be. Reading gives nothing else (`isEntry_of_mem_entries`).
* `lineOf_entryLine`: the line of such an entry sets it.
* `table_printed`: what is read of the lines of all sections.
* `parse_print_parse`: **a report that was read is read again from its print.**
-/

namespace Demotion

/-! ## Tables -/

namespace Table

variable {t : Table}

theorem find?_withFirst (h : (t.map Prod.fst).Nodup) {keys : List String} (hkeys : keys.Nodup) (key : String) :
    Assoc.find? key (withFirst keys t) = Assoc.find? key t := by
  apply Option.ext
  intro value
  rw [← Assoc.mem_iff_find? (nodup_keys_withFirst h hkeys), mem_withFirst h]

/-- Keys that are listed first already stay where they are. -/
theorem withFirst_withFirst (h : (t.map Prod.fst).Nodup) {keys : List String} (hkeys : keys.Nodup) :
    withFirst keys (withFirst keys t) = withFirst keys t := by
  have hvalues : (fun key => (Assoc.find? key (withFirst keys t)).map (key, ·)) =
      fun key => (Assoc.find? key t).map (key, ·) := by
    funext key
    rw [find?_withFirst h hkeys]
  have hothers : (withFirst keys t).filter (fun entry => !keys.contains entry.1) =
      t.filter fun entry => !keys.contains entry.1 := by
    unfold withFirst
    rw [List.filter_append, List.filter_filter]
    -- what comes first has one of the keys, and is left out
    have hfirst : (keys.filterMap fun key => (Assoc.find? key t).map (key, ·)).filter
        (fun entry => !keys.contains entry.1) = [] := by
      rw [List.filter_eq_nil_iff]
      intro entry hentry
      obtain ⟨key, hkey, hvalue⟩ := List.mem_filterMap.1 hentry
      obtain ⟨value, -, rfl⟩ := Option.map_eq_some_iff.1 hvalue
      simpa using hkey
    rw [hfirst, List.nil_append]
    simp
  rw [withFirst, hvalues, hothers, withFirst]

end Table

/-! ## Lines -/

namespace Text

theorem isBlank_of_isLineEnd {c : Char} (h : isLineEnd c = true) : isBlank c = true := by
  unfold isLineEnd at h
  simp only [Bool.or_eq_true, decide_eq_true_eq] at h
  rcases h with ((((((((rfl | rfl) | rfl) | rfl) | rfl) | rfl) | rfl) | rfl) | rfl) | rfl <;> decide

/-- A line has no line end in it. -/
theorem not_isLineEnd_of_mem_lines {s line : List Char} (h : line ∈ lines s) {c : Char} (hc : c ∈ line) :
    isLineEnd c = false := by
  fun_induction lines s generalizing line c with
  | case1 => cases h
  | case2 rest ih =>
    rcases List.mem_cons.1 h with rfl | h
    · cases hc
    · exact ih h hc
  | case3 d rest hcr hend ih =>
    rcases List.mem_cons.1 h with rfl | h
    · cases hc
    · exact ih h hc
  | case4 d rest hcr hend ih =>
    have hd : isLineEnd d = false := by simpa using hend
    cases hlines : lines rest with
    | nil =>
      rw [hlines, consHead, List.mem_singleton] at h
      subst h
      rw [List.mem_singleton.1 hc]
      exact hd
    | cons first others =>
      rw [hlines, consHead] at h
      rw [hlines] at ih
      rcases List.mem_cons.1 h with rfl | h
      · rcases List.mem_cons.1 hc with rfl | hc
        · exact hd
        · exact ih List.mem_cons_self hc
      · exact ih (List.mem_cons_of_mem _ h) hc

/-- A text before the first line end belongs to the first line. -/
theorem lines_prepend {line rest : List Char} {others : List (List Char)} (h : ∀ c ∈ line, isLineEnd c = false)
    (hrest : lines rest = [] :: others) : lines (line ++ rest) = line :: others := by
  induction line with
  | nil => exact hrest
  | cons c line ih =>
    have hc := h c List.mem_cons_self
    have hreturn : c ≠ '\r' := by
      rintro rfl
      exact absurd hc (by decide)
    rw [List.cons_append, lines_cons fun hcr => absurd hcr hreturn, hc,
      ih fun d hd => h d (List.mem_cons_of_mem c hd)]
    rfl

/-- A text without a line end, put on a line of its own. -/
theorem lines_feed {line : List Char} (h : ∀ c ∈ line, isLineEnd c = false) (rest : List Char) :
    lines (line ++ '\n' :: rest) = line :: lines rest :=
  lines_prepend h (lines_cons fun hc => absurd hc (by decide))

/-- Texts without line ends, each on a line of its own. -/
theorem lines_flatMap_feed {pieces : List (List Char)} (h : ∀ piece ∈ pieces, ∀ c ∈ piece, isLineEnd c = false) :
    lines (pieces.flatMap (· ++ ['\n'])) = pieces := by
  induction pieces with
  | nil => rfl
  | cons piece pieces ih =>
    rw [List.flatMap_cons, List.append_assoc, List.singleton_append, lines_feed (h piece List.mem_cons_self),
      ih fun other hother => h other (List.mem_cons_of_mem piece hother)]

end Text

namespace MemoryReport

/-- The line of an entry. -/
def entryLine (e : String × String) : List Char :=
  e.1.toList ++ ':' :: ' ' :: e.2.toList

/-- The lines of a section: its header, and a line for each entry. -/
def sectionLines (s : Section) (entries : Table) : List (List Char) :=
  s.header.toList :: entries.map entryLine

/-- The lines of a report, section by section. -/
def printedLines (r : MemoryReport) : List (List Char) :=
  Section.all.flatMap fun s => sectionLines s (r.entries s)

/-- A report in print, with a line feed after each line. -/
def print (r : MemoryReport) : String :=
  String.ofList (r.printedLines.flatMap (· ++ ['\n']))

/-! ## Entries -/

/-- What an entry can be: a key without a colon, and a value without white space around it, on one line and with
no header in it. -/
structure IsEntry (key value : String) : Prop where
  isKey : IsKey key
  ne_empty : key ≠ ""
  no_colon : ':' ∉ key.toList
  trimmed : Text.trim value.toList = value.toList
  one_line : ∀ c ∈ value.toList, Text.isLineEnd c = false
  no_header : ∀ s : Section, ¬s.header.toList <:+: value.toList

/-- What a line says is an entry. -/
theorem isEntry_of_says {line : List Char} {key value : String} (h : Says line key value)
    (hline : ∀ c ∈ line, Text.isLineEnd c = false) : IsEntry key value := by
  obtain ⟨hheader, -, before, after, rfl, hcolon, hblank, -, rfl, rfl⟩ := h
  have hvalue : Text.trim after <:+: before ++ ':' :: after :=
    (Text.trim_infix after).trans ⟨before ++ [':'], [], by simp⟩
  refine ⟨isKey_normalizeKey _, ?_, ?_, ?_, ?_, ?_⟩
  · apply normalizeKey_ne_empty
    rw [String.toList_ofList]
    exact hblank
  · intro hmem
    have := mem_of_mem_normalizeKey (by decide) (by decide) hmem
    rw [String.toList_ofList] at this
    exact hcolon this
  · rw [String.toList_ofList, Text.trim_trim]
  · rw [String.toList_ofList]
    intro c hc
    exact hline c (hvalue.subset hc)
  · rw [String.toList_ofList]
    intro s hs
    -- a header in the value would make the whole line a header
    have hnone := hheader
    rw [isHeader_iff, not_or] at hnone
    have hopened : openedSection? (before ++ ':' :: after) ≠ none := by
      rw [Ne, openedSection?_eq_none]
      intro hno
      exact hno s (hs.trans hvalue)
    obtain ⟨s', hs'⟩ := Option.ne_none_iff_exists'.1 hopened
    exact hnone.1 ⟨s', lineOf_eq_opens.2 (openedSection?_eq_some.1 hs')⟩

/-- All entries that are read are such entries. -/
theorem isEntry_of_mem_entries {text : String} {s : Section} {e : String × String}
    (h : e ∈ (parse text).entries s) : IsEntry e.1 e.2 := by
  obtain ⟨i, ⟨line, hline, htells, -⟩, -⟩ := (mem_entries_iff text s).1 h
  apply isEntry_of_says htells
  intro c hc
  exact Text.not_isLineEnd_of_mem_lines (List.mem_of_getElem? hline) hc

/-! ## The line of an entry -/

/-- A word with its colon stands in a line before the first colon, or behind it. -/
theorem infix_colon {word key rest : List Char} (hword : ':' ∉ word) (hkey : ':' ∉ key)
    (h : word ++ [':'] <:+: key ++ ':' :: rest) : word <:+ key ∨ word ++ [':'] <:+: rest := by
  obtain ⟨front, back, h⟩ := h
  have hline : splitColon? (key ++ ':' :: rest) = some (key, rest) := splitColon?_eq_some.2 ⟨rfl, hkey⟩
  by_cases hfront : ':' ∈ front
  · -- the first colon stands before the word
    obtain ⟨first, others, rfl, hfirst⟩ := List.eq_append_cons_of_mem hfront
    have hsplit : splitColon? (key ++ ':' :: rest) = some (first, others ++ (word ++ [':']) ++ back) :=
      splitColon?_eq_some.2 ⟨by rw [← h]; simp, hfirst⟩
    rw [hline] at hsplit
    have heq := (Prod.mk.inj (Option.some.inj hsplit)).2
    exact Or.inr ⟨others, back, heq.symm⟩
  · have hsplit : splitColon? (key ++ ':' :: rest) = some (front ++ word, back) := by
      refine splitColon?_eq_some.2 ⟨by rw [← h]; simp, ?_⟩
      rw [List.mem_append, not_or]
      exact ⟨hfront, hword⟩
    rw [hline] at hsplit
    have heq := (Prod.mk.inj (Option.some.inj hsplit)).1
    exact Or.inl ⟨front, heq.symm⟩

/-- A header is a word in capitals with a colon. -/
theorem header_eq (s : Section) : ∃ word c, s.header.toList = (word ++ [c]) ++ [':'] ∧ ':' ∉ word ++ [c] ∧
    c.isUpper = true ∧ s.header.toList.head? ≠ some ' ' := by
  cases s
  · exact ⟨"VARIABLE".toList, 'S', by decide⟩
  · exact ⟨"LITERAL".toList, 'S', by decide⟩
  · exact ⟨"MEMORY USAG".toList, 'E', by decide⟩
  · exact ⟨"BREAKDOW".toList, 'N', by decide⟩

section Entry

variable {key value : String}

/-- The line of an entry opens no section. -/
theorem IsEntry.not_opens (h : IsEntry key value) (s : Section) :
    ¬s.header.toList <:+: entryLine (key, value) := by
  obtain ⟨word, c, hheader, hcolon, hupper, hspace⟩ := header_eq s
  intro hs
  rw [hheader] at hs
  rcases infix_colon hcolon h.no_colon hs with hkey | hvalue
  · -- the last letter of a header is a capital, and a key has none
    have hc : c ∈ key.toList := hkey.subset (by simp)
    have hsmall := (h.isKey c hc).2.not_isUpper
    rw [hupper] at hsmall
    cases hsmall
  · rw [← hheader, List.infix_cons_iff] at hvalue
    rcases hvalue with ⟨rest, hrest⟩ | hvalue
    · obtain ⟨d, front, hd⟩ := List.exists_cons_of_ne_nil (show s.header.toList ≠ [] by rw [hheader]; simp)
      rw [hd, List.cons_append] at hrest
      have hfirst := (List.cons.inj hrest).1
      exact hspace (by rw [hd, hfirst]; rfl)
    · exact h.no_header s hvalue

/-- The line of an entry closes no section: it does not start with a capital. -/
theorem IsEntry.not_closes (h : IsEntry key value) : ¬Closes (entryLine (key, value)) := by
  rintro ⟨-, c, body, htrim, hc, -⟩
  obtain ⟨d, rest, hd⟩ := List.exists_cons_of_ne_nil (show key.toList ≠ [] by simpa using h.ne_empty)
  have hkey := h.isKey d (by rw [hd]; exact List.mem_cons_self)
  unfold entryLine at htrim
  rw [hd, List.cons_append, Text.trim_cons hkey.1, List.cons_append] at htrim
  have hupper := isUpper_iff.2 hc
  rw [← (List.cons.inj htrim).1, hkey.2.not_isUpper] at hupper
  cases hupper

/-- **The line of an entry sets it.** -/
theorem lineOf_entryLine (h : IsEntry key value) : lineOf (entryLine (key, value)) = .sets key value := by
  have hheader : ¬IsHeader (entryLine (key, value)) := by
    rintro (⟨s, hs, -⟩ | hcloses)
    · exact h.not_opens s hs
    · exact h.not_closes hcloses
  have hblank : Text.isBlankText key.toList = false := by
    rw [← Bool.not_eq_true, ← Text.trim_eq_nil, Text.trim_of_not_blank fun c hc => (h.isKey c hc).1]
    simpa using h.ne_empty
  have hpair : splitPair? (entryLine (key, value)) = some (key, value) := by
    refine splitPair?_eq_some.2 ⟨key.toList, ' ' :: value.toList, rfl, h.no_colon, hblank,
      List.cons_ne_nil _ _, ?_, ?_⟩
    · rw [String.ofList_toList, normalizeKey_of_isKey h.isKey]
    · rw [Text.trim_cons_of_blank (by decide), h.trimmed, String.ofList_toList]
  rw [lineOf_of_not_isHeader hheader, hpair]
  rfl

/-- The line of an entry is one line. -/
theorem IsEntry.entryLine_one_line (h : IsEntry key value) {c : Char} (hc : c ∈ entryLine (key, value)) :
    Text.isLineEnd c = false := by
  unfold entryLine at hc
  simp only [List.mem_append, List.mem_cons] at hc
  rcases hc with hc | rfl | rfl | hc
  · rw [← Bool.not_eq_true]
    intro hend
    have hblank := (h.isKey c hc).1
    rw [Text.isBlank_of_isLineEnd hend] at hblank
    cases hblank
  · decide
  · decide
  · exact h.one_line c hc

end Entry

/-! ## Reading what was printed -/

section Reading

variable {s : Section} {es : Table}

/-- The lines of entries are set one after the other, whatever was read before. -/
theorem foldl_entryLines (hes : ∀ e ∈ es, IsEntry e.1 e.2) (r : MemoryReport) :
    (es.map entryLine).foldl Progress.step ⟨r, some s⟩ = ⟨es.foldl (fun r e => r.set s e.1 e.2) r, some s⟩ := by
  induction es generalizing r with
  | nil => rfl
  | cons e es ih =>
    have hstep : Progress.step ⟨r, some s⟩ (entryLine e) = ⟨r.set s e.1 e.2, some s⟩ := by
      unfold Progress.step
      rw [lineOf_entryLine (hes e List.mem_cons_self)]
    rw [List.map_cons, List.foldl_cons, hstep, ih fun d hd => hes d (List.mem_cons_of_mem e hd), List.foldl_cons]

theorem table_foldl_set (r : MemoryReport) (s' : Section) :
    (es.foldl (fun r e => r.set s e.1 e.2) r).table s' =
      if s = s' then es.foldl (fun t e => Assoc.set e.1 e.2 t) (r.table s') else r.table s' := by
  induction es generalizing r with
  | nil => split <;> rfl
  | cons e es ih =>
    rw [List.foldl_cons, ih, table_set]
    by_cases hs : s = s'
    · rw [if_pos hs, if_pos hs, if_pos hs, List.foldl_cons]
    · rw [if_neg hs, if_neg hs, if_neg hs]

theorem lineOf_header (s : Section) : lineOf s.header.toList = .opens s := by
  cases s <;> decide

/-- The lines of a section fill its table, if nothing is in it, and leave the others. -/
theorem table_sectionLines (hes : ∀ e ∈ es, IsEntry e.1 e.2) (hkeys : (es.map Prod.fst).Nodup) {p : Progress}
    (hp : p.report.table s = []) (s' : Section) :
    ((sectionLines s es).foldl Progress.step p).report.table s' = if s = s' then es else p.report.table s' := by
  have hopen : p.step s.header.toList = ⟨p.report, some s⟩ := by
    unfold Progress.step
    rw [lineOf_header]
  rw [sectionLines, List.foldl_cons, hopen, foldl_entryLines hes, table_foldl_set]
  by_cases hs : s = s'
  · subst hs
    rw [if_pos rfl, if_pos rfl, hp, Assoc.foldl_set (by simpa using hkeys), List.nil_append]
  · rw [if_neg hs, if_neg hs]

/-- **What is read of the lines of sections**, each of which comes once. -/
theorem table_flatMap {ss : List Section} (hss : ss.Nodup) {content : Section → Table}
    (hcontent : ∀ s, ∀ e ∈ content s, IsEntry e.1 e.2) (hkeys : ∀ s, ((content s).map Prod.fst).Nodup)
    {p : Progress} (hp : ∀ s ∈ ss, p.report.table s = []) (s' : Section) :
    ((ss.flatMap fun s => sectionLines s (content s)).foldl Progress.step p).report.table s' =
      if s' ∈ ss then content s' else p.report.table s' := by
  induction ss generalizing p with
  | nil => rfl
  | cons s ss ih =>
    rw [List.nodup_cons] at hss
    have hfirst := table_sectionLines (hcontent s) (hkeys s) (hp s List.mem_cons_self)
    have hothers : ∀ q ∈ ss, ((sectionLines s (content s)).foldl Progress.step p).report.table q = [] := by
      intro q hq
      have hne : s ≠ q := fun heq => hss.1 (heq ▸ hq)
      rw [hfirst, if_neg hne, hp q (List.mem_cons_of_mem s hq)]
    rw [List.flatMap_cons, List.foldl_append, ih hss.2 hothers, hfirst]
    by_cases hs : s = s'
    · subst hs
      rw [if_neg hss.1, if_pos rfl, if_pos List.mem_cons_self]
    · rw [if_neg hs]
      simp only [List.mem_cons, Ne.symm hs, false_or]

end Reading

/-- The lines of what was printed. -/
theorem lines_print {r : MemoryReport} (hr : ∀ s, ∀ e ∈ r.entries s, IsEntry e.1 e.2) :
    Text.lines (print r).toList = r.printedLines := by
  unfold print
  rw [String.toList_ofList]
  apply Text.lines_flatMap_feed
  intro line hline c hc
  obtain ⟨s, -, hs⟩ := List.mem_flatMap.1 hline
  rcases List.mem_cons.1 hs with rfl | hs
  · have hheader : s.header.toList.all (fun c => !Text.isLineEnd c) = true := by cases s <;> decide
    simpa using List.all_eq_true.1 hheader c hc
  · obtain ⟨e, he, rfl⟩ := List.mem_map.1 hs
    exact (hr s e he).entryLine_one_line hc

/-- What is read of the print of a report that was read: in each table the entries, as they were listed. -/
theorem table_printed (text : String) (s : Section) :
    (parse (print (parse text))).table s = (parse text).entries s := by
  have hentries : ∀ s, ∀ e ∈ (parse text).entries s, IsEntry e.1 e.2 := fun s e he => isEntry_of_mem_entries he
  have hempty : ∀ s ∈ Section.all, MemoryReport.empty.table s = [] := by
    intro s _
    cases s <;> rfl
  have htable : ((parse text).printedLines.foldl Progress.step ⟨.empty, none⟩).report.table s =
      if s ∈ Section.all then (parse text).entries s else MemoryReport.empty.table s :=
    table_flatMap (by decide) hentries (nodup_keys_entries text) hempty s
  rw [if_pos s.mem_all, ← lines_print hentries] at htable
  exact htable

/-- **A report that was read is read again from its print**: each section has the same keys with the same values,
and lists them in the same order. -/
theorem parse_print_parse (text : String) (s : Section) :
    (parse (print (parse text))).entries s = (parse text).entries s := by
  have hnodup : (((parse text).table s).map Prod.fst).Nodup := nodup_keys_table
  unfold entries
  rw [table_printed]
  exact Table.withFirst_withFirst hnodup s.nodup_leadingKeys

example : print (parse "x: 1\nMEMORY USAGE: \r\n SAVED  Σ : 5: NOTES: \nKept:\t") =
    "VARIABLES:\nLITERALS:\nMEMORY USAGE:\nsaved_σ: 5: NOTES:\nkept: \nBREAKDOWN:\n" := by
  decide +kernel

end MemoryReport

end Demotion
