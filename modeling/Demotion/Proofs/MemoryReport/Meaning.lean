import Mathlib.Data.List.TakeWhile
import Demotion.MemoryReport.Basic
import Demotion.Proofs.Assoc

/-!
# What a memory report says

A report says of a key what the last line says that sets the key and stands in the section. A line stands
in the section that the nearest header above it opens. This is told by positions in the list of lines; that
reading them one after the other comes to the same is what is proved here.

* `lineOf_eq_opens`, `lineOf_eq_closes`, `lineOf_eq_sets`: what a line does, told by its text.
* `current_eq_iff`: the section that is open after some lines is that in which a further line would stand.
* `find?_table_iff`: the value of a key after some lines is that of the last line that sets it there.
* `parse_entries_iff`: **the entries of a report are what its lines say.**
-/

namespace Demotion

/-! ## Tables -/

namespace Table

variable {t : Table} {key : String}

/-- Listing some keys first leaves the entries what they are. -/
theorem mem_withFirst (h : (t.map Prod.fst).Nodup) (keys : List String) {value : String} :
    (key, value) ∈ withFirst keys t ↔ Assoc.find? key t = some value := by
  unfold withFirst
  rw [List.mem_append, List.mem_filterMap, List.mem_filter, Assoc.mem_iff_find? h]
  constructor
  · rintro (⟨name, -, hname⟩ | ⟨hvalue, -⟩)
    · obtain ⟨v, hv, heq⟩ := Option.map_eq_some_iff.1 hname
      obtain ⟨rfl, rfl⟩ := Prod.mk.inj heq
      exact hv
    · exact hvalue
  · intro hvalue
    by_cases hkey : key ∈ keys
    · exact Or.inl ⟨key, hkey, by rw [hvalue]; rfl⟩
    · exact Or.inr ⟨hvalue, by simpa using hkey⟩

theorem nodup_keys_withFirst (h : (t.map Prod.fst).Nodup) {keys : List String} (hkeys : keys.Nodup) :
    ((withFirst keys t).map Prod.fst).Nodup := by
  -- the keys that come first are among the given ones, and the others are not
  have hfirst : ((keys.filterMap fun key => (Assoc.find? key t).map (key, ·)).map Prod.fst).Sublist keys := by
    clear hkeys
    induction keys with
    | nil => exact List.Sublist.slnil
    | cons name keys ih =>
      rw [List.filterMap_cons]
      cases Assoc.find? name t with
      | none => exact ih.cons _
      | some v => exact ih.cons_cons _
  unfold withFirst
  rw [List.map_append, List.nodup_append]
  refine ⟨hkeys.sublist hfirst, h.sublist (List.filter_sublist.map _), ?_⟩
  rintro a ha _ hb rfl
  obtain ⟨entry, hentry, rfl⟩ := List.mem_map.1 hb
  have hmem : entry.1 ∈ keys := hfirst.subset ha
  simp [hmem] at hentry

end Table

namespace MemoryReport

/-! ## What a line does -/

/-- A line that opens a section: it has the header of the section in it, and of no section that is looked
for before. -/
def Opens (s : Section) (line : List Char) : Prop :=
  s.header.toList <:+: line ∧
    ∃ before after, Section.all = before ++ s :: after ∧ ∀ b ∈ before, ¬b.header.toList <:+: line

/-- A character of a closing header before its colon. -/
def IsCapital (c : Char) : Prop :=
  'A' ≤ c ∧ c ≤ 'Z' ∨ '0' ≤ c ∧ c ≤ '9' ∨ c ∈ " _/()&-".toList

/-- A line that closes a section: it has none of the headers in it, and without the white space around it
is written in capitals up to a colon at its end. -/
def Closes (line : List Char) : Prop :=
  (∀ s : Section, ¬s.header.toList <:+: line) ∧
    ∃ c body, Text.trim line = c :: body ++ [':'] ∧ ('A' ≤ c ∧ c ≤ 'Z') ∧ ∀ d ∈ body, IsCapital d

/-- A header of either kind. -/
def IsHeader (line : List Char) : Prop :=
  (∃ s, Opens s line) ∨ Closes line

/-- A line that sets a key: no header, with a colon, with text before the first colon that stands for the
key, and with something after it, of which the value is what is not white space around it. -/
def Says (line : List Char) (key value : String) : Prop :=
  ¬IsHeader line ∧ Text.isBlankText line = false ∧
    ∃ before after, line = before ++ ':' :: after ∧ ':' ∉ before ∧ Text.isBlankText before = false ∧
      after ≠ [] ∧ normalizeKey (String.ofList before) = key ∧ String.ofList (Text.trim after) = value

theorem Section.mem_all (s : Section) : s ∈ Section.all := by
  cases s <;> decide

theorem occurs_iff {part s : List Char} : Text.occurs part s = true ↔ part <:+: s := by
  induction s with
  | nil => rw [Text.occurs, List.isEmpty_iff, List.infix_nil]
  | cons c s ih => rw [Text.occurs, Bool.or_eq_true, ih, List.isPrefixOf_iff_prefix, List.infix_cons_iff]

theorem openedSection?_eq_some {line : List Char} {s : Section} :
    openedSection? line = some s ↔ Opens s line := by
  unfold openedSection? Opens
  rw [List.find?_eq_some_iff_append, occurs_iff]
  simp only [Bool.not_eq_true', ← Bool.not_eq_true, occurs_iff]

theorem openedSection?_eq_none {line : List Char} :
    openedSection? line = none ↔ ∀ s : Section, ¬s.header.toList <:+: line := by
  unfold openedSection?
  rw [List.find?_eq_none]
  simp only [occurs_iff]
  exact ⟨fun h s => h s s.mem_all, fun h s _ => h s⟩

theorem isUpper_iff {c : Char} : c.isUpper = true ↔ 'A' ≤ c ∧ c ≤ 'Z' := by
  unfold Char.isUpper
  rw [decide_eq_true_eq]
  exact Iff.rfl

theorem isHeaderChar_iff {c : Char} : isHeaderChar c = true ↔ IsCapital c := by
  unfold isHeaderChar IsCapital Char.isDigit
  rw [Bool.or_eq_true, Bool.or_eq_true, isUpper_iff, or_assoc, List.contains_iff_mem, Bool.and_eq_true,
    decide_eq_true_eq, decide_eq_true_eq]
  exact Iff.rfl

theorem isClosingHeader_iff {text : List Char} :
    isClosingHeader text = true ↔
      ∃ c body, text = c :: body ++ [':'] ∧ ('A' ≤ c ∧ c ≤ 'Z') ∧ ∀ d ∈ body, IsCapital d := by
  cases text with
  | nil =>
    constructor
    · intro h; cases h
    · rintro ⟨c, body, h, -⟩; cases h
  | cons c rest =>
    rw [isClosingHeader, Bool.and_eq_true, isUpper_iff, beq_iff_eq]
    constructor
    · rintro ⟨hc, hrest⟩
      refine ⟨c, rest.takeWhile isHeaderChar, ?_, hc, fun d hd => ?_⟩
      · rw [List.cons_append, ← hrest, List.takeWhile_append_dropWhile]
      · exact isHeaderChar_iff.1 (List.mem_takeWhile_imp hd)
    · rintro ⟨c', body, h, hc, hbody⟩
      rw [List.cons_append] at h
      obtain ⟨rfl, rfl⟩ := List.cons.inj h
      have hpass : ∀ d ∈ body, isHeaderChar d = true := fun d hd => isHeaderChar_iff.2 (hbody d hd)
      exact ⟨hc, List.dropWhile_append_of_pos hpass⟩

theorem splitColon?_eq_some {line before after : List Char} :
    splitColon? line = some (before, after) ↔ line = before ++ ':' :: after ∧ ':' ∉ before := by
  induction line generalizing before with
  | nil =>
    constructor
    · intro h; cases h
    · rintro ⟨h, -⟩; cases before <;> cases h
  | cons c line ih =>
    by_cases hc : c = ':'
    · subst hc
      constructor
      · intro h; cases h; exact ⟨rfl, List.not_mem_nil⟩
      · rintro ⟨h, hnot⟩
        cases before with
        | nil => cases h; rfl
        | cons b before => cases h; exact absurd List.mem_cons_self hnot
    · have hsplit : splitColon? (c :: line) = (splitColon? line).map fun r => (c :: r.1, r.2) := by
        rw [splitColon?]
        exact fun h => hc h
      rw [hsplit, Option.map_eq_some_iff]
      constructor
      · rintro ⟨⟨front, back⟩, hfront, h⟩
        cases h
        obtain ⟨rfl, hnot⟩ := ih.1 hfront
        refine ⟨rfl, fun hmem => ?_⟩
        rcases List.mem_cons.1 hmem with h | h
        · exact hc h.symm
        · exact hnot h
      · rintro ⟨h, hnot⟩
        cases before with
        | nil => cases h; exact absurd rfl hc
        | cons b front =>
          cases h
          exact ⟨(front, after), ih.2 ⟨rfl, fun h => hnot (List.mem_cons_of_mem _ h)⟩, rfl⟩

theorem splitPair?_eq_some {line : List Char} {key value : String} :
    splitPair? line = some (key, value) ↔
      ∃ before after, line = before ++ ':' :: after ∧ ':' ∉ before ∧ Text.isBlankText before = false ∧
        after ≠ [] ∧ normalizeKey (String.ofList before) = key ∧ String.ofList (Text.trim after) = value := by
  unfold splitPair?
  constructor
  · intro h
    split at h
    · cases h
    · rename_i before after hsplit
      obtain ⟨hline, hnot⟩ := splitColon?_eq_some.1 hsplit
      split at h
      · cases h
      · rename_i hblank
        simp only [Bool.or_eq_true, not_or, Bool.not_eq_true, List.isEmpty_eq_false_iff] at hblank
        cases h
        exact ⟨before, after, hline, hnot, hblank.1, hblank.2, rfl, rfl⟩
  · rintro ⟨before, after, hline, hnot, hblank, hafter, rfl, rfl⟩
    rw [splitColon?_eq_some.2 ⟨hline, hnot⟩]
    simp [hblank, hafter]

section LineOf

variable {line : List Char}

theorem lineOf_eq_opens {s : Section} : lineOf line = .opens s ↔ Opens s line := by
  rw [← openedSection?_eq_some]
  unfold lineOf
  cases openedSection? line with
  | some s' => simp
  | none =>
    simp only [reduceCtorEq, iff_false]
    split
    · exact nofun
    · split <;> exact nofun

theorem lineOf_eq_closes : lineOf line = .closes ↔ Closes line := by
  unfold Closes
  rw [← openedSection?_eq_none, ← isClosingHeader_iff]
  unfold lineOf
  cases openedSection? line with
  | some s' => simp
  | none =>
    simp only [true_and]
    split
    · rename_i h; simp [h]
    · rename_i h
      split <;> simp [h]

theorem isHeader_iff : IsHeader line ↔ (∃ s, lineOf line = .opens s) ∨ lineOf line = .closes := by
  simp only [lineOf_eq_opens, lineOf_eq_closes]
  exact Iff.rfl

/-- A line that is no header sets what its pair says, if it has one. -/
theorem lineOf_of_not_isHeader (h : ¬IsHeader line) :
    lineOf line = ((splitPair? line).map fun pair => Line.sets pair.1 pair.2).getD .nothing := by
  rw [isHeader_iff, not_or] at h
  unfold lineOf at h ⊢
  split
  · rename_i s hs
    exact absurd ⟨s, by rw [hs]⟩ h.1
  · rename_i hs
    split
    · rename_i hclosing
      exact absurd (by rw [hs]; exact if_pos hclosing) h.2
    · cases splitPair? line <;> rfl

theorem lineOf_eq_sets {key value : String} : lineOf line = .sets key value ↔ Says line key value := by
  constructor
  · intro h
    have hheader : ¬IsHeader line := by
      rw [isHeader_iff, h]
      rintro (⟨s, hs⟩ | hs) <;> cases hs
    rw [lineOf_of_not_isHeader hheader] at h
    cases hpair : splitPair? line with
    | none => rw [hpair] at h; cases h
    | some pair =>
      rw [hpair] at h
      cases h
      obtain ⟨before, after, rfl, hrest⟩ := splitPair?_eq_some.1 hpair
      -- the colon itself is no white space
      have hblank : Text.isBlankText (before ++ ':' :: after) = false := by
        have hcolon : Text.isBlank ':' = false := by decide
        simp [Text.isBlankText, hcolon]
      exact ⟨hheader, hblank, before, after, rfl, hrest⟩
  · rintro ⟨hheader, -, hpair⟩
    rw [lineOf_of_not_isHeader hheader, splitPair?_eq_some.2 hpair]
    rfl

end LineOf

/-! ## Where a line stands -/

/-- Line `i` stands in a section: the nearest header above it opens the section. -/
def StandsIn (lines : List (List Char)) (s : Section) (i : Nat) : Prop :=
  ∃ j header, j < i ∧ lines[j]? = some header ∧ Opens s header ∧
    ∀ k line, j < k → k < i → lines[k]? = some line → ¬IsHeader line

/-- Line `i` sets a key of a section. -/
def SetsAt (lines : List (List Char)) (s : Section) (key value : String) (i : Nat) : Prop :=
  ∃ line, lines[i]? = some line ∧ Says line key value ∧ StandsIn lines s i

section Positions

variable {lines : List (List Char)} {line : List Char} {s : Section} {key value : String} {i : Nat}

/-- What follows a line makes no difference to where it stands. -/
theorem standsIn_append (more : List (List Char)) (hi : i ≤ lines.length) :
    StandsIn (lines ++ more) s i ↔ StandsIn lines s i := by
  have hsame : ∀ k, k < i → (lines ++ more)[k]? = lines[k]? := fun k hk =>
    List.getElem?_append_left (by omega)
  constructor
  · rintro ⟨j, header, hj, hheader, hopens, hbetween⟩
    refine ⟨j, header, hj, hsame j hj ▸ hheader, hopens, fun k l hjk hki hl => ?_⟩
    exact hbetween k l hjk hki (by rw [hsame k hki]; exact hl)
  · rintro ⟨j, header, hj, hheader, hopens, hbetween⟩
    refine ⟨j, header, hj, by rw [hsame j hj]; exact hheader, hopens, fun k l hjk hki hl => ?_⟩
    exact hbetween k l hjk hki (by rw [← hsame k hki]; exact hl)

/-- Below one more line, a line stands in the section that this one opens, or where this one stands. -/
theorem standsIn_concat :
    StandsIn (lines ++ [line]) s (lines.length + 1) ↔
      Opens s line ∨ ¬IsHeader line ∧ StandsIn lines s lines.length := by
  have hlast : (lines ++ [line])[lines.length]? = some line := List.getElem?_concat_length
  constructor
  · rintro ⟨j, header, hj, hheader, hopens, hbetween⟩
    rcases Nat.lt_succ_iff_lt_or_eq.1 hj with hj | rfl
    · refine Or.inr ⟨hbetween _ _ hj (Nat.lt_succ_self _) hlast, ?_⟩
      rw [← standsIn_append [line] (Nat.le_refl _)]
      exact ⟨j, header, hj, hheader, hopens, fun k l hjk hk => hbetween k l hjk (by omega)⟩
    · rw [hlast] at hheader
      cases hheader
      exact Or.inl hopens
  · rintro (hopens | ⟨hnot, hstands⟩)
    · exact ⟨lines.length, line, Nat.lt_succ_self _, hlast, hopens, fun k l hk hk' => by omega⟩
    · rw [← standsIn_append [line] (Nat.le_refl _)] at hstands
      obtain ⟨j, header, hj, hheader, hopens, hbetween⟩ := hstands
      refine ⟨j, header, by omega, hheader, hopens, fun k l hjk hk hl => ?_⟩
      rcases Nat.lt_succ_iff_lt_or_eq.1 hk with hk | rfl
      · exact hbetween k l hjk hk hl
      · rw [hlast] at hl
        cases hl
        exact hnot

/-- One more line sets what it says where it stands, and the lines before it set what they did. -/
theorem setsAt_concat :
    SetsAt (lines ++ [line]) s key value i ↔
      SetsAt lines s key value i ∨
        i = lines.length ∧ Says line key value ∧ StandsIn lines s lines.length := by
  rcases Nat.lt_trichotomy i lines.length with hi | rfl | hi
  · have hne : i ≠ lines.length := by omega
    unfold SetsAt
    rw [List.getElem?_append_left hi, standsIn_append [line] (by omega)]
    simp [hne]
  · have hnone : lines[lines.length]? = none := List.getElem?_eq_none (Nat.le_refl _)
    unfold SetsAt
    rw [List.getElem?_concat_length, standsIn_append [line] (Nat.le_refl _), hnone]
    simp
  · have hne : i ≠ lines.length := by omega
    have hnone : lines[i]? = none := List.getElem?_eq_none (by omega)
    have hnone' : (lines ++ [line])[i]? = none := List.getElem?_eq_none (by simp; omega)
    unfold SetsAt
    rw [hnone, hnone']
    simp [hne]

theorem SetsAt.lt_length (h : SetsAt lines s key value i) : i < lines.length := by
  obtain ⟨line, hline, -⟩ := h
  exact (List.getElem?_eq_some_iff.1 hline).1

end Positions

/-- Line `i` is the last that sets a key of a section. -/
def SetsLastAt (lines : List (List Char)) (s : Section) (key value : String) (i : Nat) : Prop :=
  SetsAt lines s key value i ∧ ∀ j v, i < j → ¬SetsAt lines s key v j

/-! ## Reading line by line -/

theorem table_set (r : MemoryReport) (s s' : Section) (key value : String) :
    (r.set s key value).table s' = if s = s' then Assoc.set key value (r.table s') else r.table s' := by
  cases s <;> cases s' <;> rfl

/-- What is read of a list of lines. -/
def scan (lines : List (List Char)) : Progress :=
  lines.foldl Progress.step ⟨.empty, none⟩

theorem scan_concat (lines : List (List Char)) (line : List Char) :
    scan (lines ++ [line]) = (scan lines).step line := by
  unfold scan
  rw [List.foldl_append]
  rfl

section Scan

variable {lines : List (List Char)} {s : Section}

/-- **The open section** is that in which a further line would stand. -/
theorem current_eq_iff : (scan lines).current = some s ↔ StandsIn lines s lines.length := by
  induction lines using List.reverseRecOn with
  | nil =>
    constructor
    · intro h; cases h
    · rintro ⟨j, -, hj, -⟩; exact absurd hj (Nat.not_lt_zero j)
  | append_singleton lines line ih =>
    rw [scan_concat, List.length_append, List.length_singleton, standsIn_concat, ← lineOf_eq_opens,
      isHeader_iff, ← ih]
    unfold Progress.step
    cases lineOf line with
    | opens s' => simp
    | closes => simp
    | sets key value => cases hcurrent : (scan lines).current <;> simp [hcurrent]
    | nothing => simp

/-- What one more line does to the tables. -/
theorem table_step (line : List Char) :
    (((scan lines).step line).report.table s = (scan lines).report.table s ∧
        ¬∃ key value, Says line key value ∧ StandsIn lines s lines.length) ∨
      ∃ key value, Says line key value ∧ StandsIn lines s lines.length ∧
        ((scan lines).step line).report.table s = Assoc.set key value ((scan lines).report.table s) := by
  simp only [← lineOf_eq_sets, ← current_eq_iff]
  unfold Progress.step
  cases lineOf line with
  | opens s' => exact Or.inl ⟨rfl, by rintro ⟨_, _, h, -⟩; cases h⟩
  | closes => exact Or.inl ⟨rfl, by rintro ⟨_, _, h, -⟩; cases h⟩
  | nothing => exact Or.inl ⟨rfl, by rintro ⟨_, _, h, -⟩; cases h⟩
  | sets key value =>
    cases hcurrent : (scan lines).current with
    | none => exact Or.inl ⟨rfl, by rintro ⟨_, _, -, h⟩; cases h⟩
    | some s' =>
      by_cases hs : s' = s
      · subst hs
        exact Or.inr ⟨key, value, rfl, rfl, by simp only [table_set, if_true]⟩
      · refine Or.inl ⟨by simp only [table_set, if_neg hs], ?_⟩
        rintro ⟨_, _, -, h⟩
        exact hs (Option.some.inj h)

theorem nodup_keys_table : (((scan lines).report.table s).map Prod.fst).Nodup := by
  induction lines using List.reverseRecOn with
  | nil => cases s <;> exact List.nodup_nil
  | append_singleton lines line ih =>
    rw [scan_concat]
    rcases table_step (s := s) line with ⟨htable, -⟩ | ⟨key, value, -, -, htable⟩
    · rw [htable]; exact ih
    · rw [htable]; exact Assoc.nodup_keys_set ih key value

/-- **The value of a key** is that of the last line that sets it. -/
theorem find?_table_iff {key value : String} :
    Assoc.find? key ((scan lines).report.table s) = some value ↔ ∃ i, SetsLastAt lines s key value i := by
  induction lines using List.reverseRecOn with
  | nil =>
    constructor
    · intro h; cases s <;> cases h
    · rintro ⟨i, hset, -⟩; exact absurd hset.lt_length (Nat.not_lt_zero i)
  | append_singleton lines line ih =>
    rw [scan_concat]
    unfold SetsLastAt at ih ⊢
    simp only [setsAt_concat]
    rcases table_step (s := s) line with ⟨htable, hno⟩ | ⟨name, v, hsets, hstands, htable⟩
    · -- the line sets nothing of the section
      push Not at hno
      rw [htable, ih]
      constructor
      · rintro ⟨i, hset, hlast⟩
        refine ⟨i, Or.inl hset, fun j w hj => ?_⟩
        rintro (h | ⟨-, h, h'⟩)
        · exact hlast j w hj h
        · exact hno key w h h'
      · rintro ⟨i, hset | ⟨-, h, h'⟩, hlast⟩
        · exact ⟨i, hset, fun j w hj h => hlast j w hj (Or.inl h)⟩
        · exact absurd h' (hno key value h)
    · have hsame : ∀ k w, Says line k w → k = name ∧ w = v := by
        intro k w h
        have heq := (lineOf_eq_sets.2 h).symm.trans (lineOf_eq_sets.2 hsets)
        cases heq
        exact ⟨rfl, rfl⟩
      rw [htable, Assoc.find?_set]
      by_cases hkey : name = key
      · -- the line is the last of all
        subst hkey
        rw [if_pos rfl]
        constructor
        · intro hv
          cases hv
          refine ⟨lines.length, Or.inr ⟨rfl, hsets, hstands⟩, fun j w hj => ?_⟩
          rintro (h | ⟨h, -⟩)
          · have := h.lt_length; omega
          · omega
        · rintro ⟨i, hset | ⟨-, h, -⟩, hlast⟩
          · exact absurd (Or.inr ⟨rfl, hsets, hstands⟩) (hlast lines.length v hset.lt_length)
          · rw [(hsame _ _ h).2]
      · -- the line sets another key
        rw [if_neg hkey, ih]
        constructor
        · rintro ⟨i, hset, hlast⟩
          refine ⟨i, Or.inl hset, fun j w hj => ?_⟩
          rintro (h | ⟨-, h, -⟩)
          · exact hlast j w hj h
          · exact hkey (hsame _ _ h).1.symm
        · rintro ⟨i, hset | ⟨-, h, -⟩, hlast⟩
          · exact ⟨i, hset, fun j w hj h => hlast j w hj (Or.inl h)⟩
          · exact absurd (hsame _ _ h).1.symm hkey

end Scan

/-! ## Whole reports -/

/-- If a key is set at all, there is a last line that sets it. -/
theorem exists_setsLastAt {lines : List (List Char)} {s : Section} {key value : String} {i : Nat}
    (h : SetsAt lines s key value i) : ∃ v j, SetsLastAt lines s key v j := by
  -- by induction on how many lines follow
  induction hn : lines.length - i using Nat.strong_induction_on generalizing i value with
  | _ n ih =>
    by_cases hlater : ∃ j v, i < j ∧ SetsAt lines s key v j
    · obtain ⟨j, v, hj, hset⟩ := hlater
      have := hset.lt_length
      exact ih (lines.length - j) (by omega) hset rfl
    · push Not at hlater
      exact ⟨value, i, h, hlater⟩

theorem mem_entries_iff (text : String) (s : Section) {key value : String} :
    (key, value) ∈ (parse text).entries s ↔ ∃ i, SetsLastAt (Text.lines text.toList) s key value i := by
  have hnodup : (((parse text).table s).map Prod.fst).Nodup := nodup_keys_table
  unfold entries
  rw [Table.mem_withFirst hnodup]
  exact find?_table_iff

theorem Section.nodup_leadingKeys (s : Section) : s.leadingKeys.Nodup := by
  cases s <;> decide

theorem nodup_keys_entries (text : String) (s : Section) : (((parse text).entries s).map Prod.fst).Nodup :=
  Table.nodup_keys_withFirst nodup_keys_table s.nodup_leadingKeys

/-- **What a report says.** A section has a key exactly if some line that stands in the section sets it, has
it once, and has for it the value that the last such line gives. -/
theorem parse_entries_iff (text : String) (s : Section) (key : String) :
    (((parse text).entries s).map Prod.fst).Nodup ∧
      (key ∈ ((parse text).entries s).map Prod.fst ↔
        ∃ i value, SetsAt (Text.lines text.toList) s key value i) ∧
      ∀ value, (key, value) ∈ (parse text).entries s ↔
        ∃ i, SetsAt (Text.lines text.toList) s key value i ∧
          ∀ j v, i < j → ¬SetsAt (Text.lines text.toList) s key v j := by
  refine ⟨nodup_keys_entries text s, ?_, fun value => mem_entries_iff text s⟩
  rw [List.mem_map]
  constructor
  · rintro ⟨⟨name, value⟩, hmem, rfl⟩
    obtain ⟨i, hset, -⟩ := (mem_entries_iff text s).1 hmem
    exact ⟨i, value, hset⟩
  · rintro ⟨i, value, hset⟩
    obtain ⟨v, j, hlast⟩ := exists_setsLastAt hset
    exact ⟨(key, v), (mem_entries_iff text s).2 ⟨j, hlast⟩, rfl⟩

end MemoryReport

end Demotion
