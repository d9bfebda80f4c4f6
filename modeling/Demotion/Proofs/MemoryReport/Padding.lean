import Demotion.Proofs.MemoryReport.Printed

/-!
# Padding and line ends of a memory report

Spaces and tabs around a line make no difference to what the line does, and neither does the way in which lines
end. There is one exception: a line with a key and nothing after its colon does nothing, and with a space after
the colon it sets the key to the empty text.

* `Text.LineByLine`, `Text.line_induction`: two texts line by line, and induction on the lines of one.
* `Progress.run_line`: reading goes on after the first line of a text, whichever character ends it.
* `lineOf_eq_iff`: when two paddings of a line do the same.
* `parse_repadded`: **which paddings of a report are read as the same report.**
* `parse_bare_differs`: padding after a colon can set a key.
-/

namespace Demotion

/-! ## Texts line by line -/

namespace Text

/-- A text without line ends. -/
def IsLine (s : List Char) : Prop :=
  ∀ c ∈ s, isLineEnd c = false

instance : DecidablePred IsLine := fun s =>
  decidable_of_iff ((s.all fun c => !isLineEnd c) = true) <| by
    simp only [IsLine, List.all_eq_true, Bool.not_eq_true']

/-- Two texts with the same line ends, whose lines are related one by one. A carriage return and a line feed after
it count as two line ends with an empty line between them. -/
inductive LineByLine (R : List Char → List Char → Prop) : List Char → List Char → Prop where
  | last {a b : List Char} (ha : IsLine a) (hb : IsLine b) (h : R a b) : LineByLine R a b
  | more {a b s t : List Char} {c : Char} (ha : IsLine a) (hb : IsLine b) (hc : isLineEnd c = true) (h : R a b)
      (hrest : LineByLine R s t) : LineByLine R (a ++ c :: s) (b ++ c :: t)

/-- Induction on a text line by line. -/
theorem line_induction {motive : List Char → Prop} (last : ∀ line, IsLine line → motive line)
    (more : ∀ line c rest, IsLine line → isLineEnd c = true → motive rest → motive (line ++ c :: rest))
    (s : List Char) : motive s :=
  piece_induction isLineEnd last more s

theorem LineByLine.refl {R : List Char → List Char → Prop} (hR : ∀ a, R a a) (s : List Char) :
    LineByLine R s s := by
  induction s using line_induction with
  | last line hline => exact .last hline hline (hR line)
  | more line c rest hline hc ih => exact .more hline hline hc (hR line) ih

theorem LineByLine.mono {R S : List Char → List Char → Prop} (hRS : ∀ a b, R a b → S a b) {s t : List Char}
    (h : LineByLine R s t) : LineByLine S s t := by
  induction h with
  | last ha hb h => exact .last ha hb (hRS _ _ h)
  | more ha hb hc h _ ih => exact .more ha hb hc (hRS _ _ h) ih

/-- Lines that are the same may stand before. -/
theorem LineByLine.prepend {R : List Char → List Char → Prop} (hR : ∀ a, R a a) {before s t : List Char}
    (hbefore : ∀ c, before.getLast? = some c → isLineEnd c = true) (h : LineByLine R s t) :
    LineByLine R (before ++ s) (before ++ t) := by
  induction before using line_induction with
  | last line hline =>
    -- a line that ends in a line end is empty
    have hnil : line = [] := by
      by_contra hne
      have hend := hbefore _ (List.getLast?_eq_some_getLast hne)
      rw [hline _ (List.getLast_mem hne)] at hend
      cases hend
    rw [hnil]
    exact h
  | more line c rest hline hc ih =>
    have hrest : ∀ d, rest.getLast? = some d → isLineEnd d = true := by
      intro d hd
      apply hbefore
      rw [List.append_cons, List.getLast?_append, hd]
      rfl
    rw [List.append_assoc, List.append_assoc, List.cons_append, List.cons_append]
    exact .more hline hline hc (hR line) (ih hrest)

/-- What follows the first line may be the same. -/
theorem LineByLine.append {R : List Char → List Char → Prop} (hR : ∀ a, R a a) {a b after : List Char}
    (ha : IsLine a) (hb : IsLine b) (h : R a b) (hafter : ∀ c, after.head? = some c → isLineEnd c = true) :
    LineByLine R (a ++ after) (b ++ after) := by
  cases after with
  | nil =>
    rw [List.append_nil, List.append_nil]
    exact .last ha hb h
  | cons c rest => exact .more ha hb (hafter c rfl) h (.refl hR rest)

theorem lines_of_isLine {line : List Char} (hline : IsLine line) :
    lines line = if line = [] then [] else [line] := by
  induction line with
  | nil => rfl
  | cons c line ih =>
    have hc := hline c List.mem_cons_self
    have hreturn : c = '\r' → line.head? ≠ some '\n' := by
      rintro rfl
      exact absurd hc (by decide)
    rw [lines_cons hreturn, hc, ih fun d hd => hline d (List.mem_cons_of_mem c hd),
      if_neg (List.cons_ne_nil c line)]
    cases line with
    | nil => rfl
    | cons d line => rfl

end Text

namespace MemoryReport

open Text (IsLine LineByLine isLineEnd)

/-! ## Reading line by line -/

/-- Reads a text from where one has come. -/
def Progress.run (p : Progress) (s : List Char) : Progress :=
  (Text.lines s).foldl Progress.step p

section Run

variable {p : Progress} {line s t rest : List Char} {c : Char}

theorem lineOf_nil : lineOf [] = .nothing := by decide

theorem step_nil (p : Progress) : p.step [] = p := by
  unfold Progress.step
  rw [lineOf_nil]

theorem Progress.run_last (hline : IsLine line) : p.run line = p.step line := by
  unfold Progress.run
  rw [Text.lines_of_isLine hline]
  by_cases hnil : line = []
  · rw [if_pos hnil, hnil, step_nil]
    rfl
  · rw [if_neg hnil]
    rfl

/-- **Reading goes on after the first line.** Where the end of the line has a second character, the empty line
before it does nothing. -/
theorem Progress.run_line (hline : IsLine line) (hc : isLineEnd c = true) :
    p.run (line ++ c :: rest) = (p.step line).run rest := by
  unfold Progress.run
  by_cases hfeed : c = '\r' ∧ rest.head? = some '\n'
  · obtain ⟨rfl, hhead⟩ := hfeed
    obtain ⟨rest, rfl⟩ := List.head?_eq_some_iff.1 hhead
    have hlines : Text.lines ('\n' :: rest) = [] :: Text.lines rest :=
      Text.lines_cons fun h => absurd h (by decide)
    rw [Text.lines_prepend hline (Text.lines_returnFeed rest), hlines, List.foldl_cons, List.foldl_cons, step_nil]
  · have hlines : Text.lines (c :: rest) = [] :: Text.lines rest := by
      rw [Text.lines_cons fun h h' => hfeed ⟨h, h'⟩, hc]
      rfl
    rw [Text.lines_prepend hline hlines, List.foldl_cons]

/-- Lines that do the same take the same step. -/
theorem step_congr {a b : List Char} (h : lineOf a = lineOf b) (p : Progress) : p.step a = p.step b := by
  unfold Progress.step
  rw [h]

/-- **Texts whose lines do the same, one by one, are read alike.** -/
theorem Progress.run_congr (h : LineByLine (fun a b => lineOf a = lineOf b) s t) : p.run s = p.run t := by
  induction h generalizing p with
  | last ha hb h => rw [run_last ha, run_last hb, step_congr h]
  | more ha hb hc h _ ih => rw [run_line ha hc, run_line hb hc, step_congr h, ih]

end Run

theorem parse_eq_run (s : String) : parse s = (Progress.run ⟨.empty, none⟩ s.toList).report := rfl

/-! ## Line ends -/

/-- A text with a carriage return before each line feed. -/
def returnFeeds (s : List Char) : List Char :=
  s.flatMap fun c => if c = '\n' then ['\r', '\n'] else [c]

theorem returnFeeds_of_isLine {s : List Char} (h : IsLine s) : returnFeeds s = s := by
  induction s with
  | nil => rfl
  | cons c s ih =>
    have hc : c ≠ '\n' := by
      rintro rfl
      exact absurd (h '\n' List.mem_cons_self) (by decide)
    have hs := ih fun d hd => h d (List.mem_cons_of_mem c hd)
    unfold returnFeeds at hs ⊢
    rw [List.flatMap_cons, if_neg hc, hs]
    rfl

/-- **A carriage return before each line feed makes no difference.** -/
theorem Progress.run_returnFeeds (p : Progress) (s : List Char) : p.run (returnFeeds s) = p.run s := by
  induction s using Text.line_induction generalizing p with
  | last line hline => rw [returnFeeds_of_isLine hline]
  | more line c rest hline hc ih =>
    have hsplit : returnFeeds (line ++ c :: rest) = line ++ returnFeeds (c :: rest) := by
      unfold returnFeeds
      rw [List.flatMap_append]
      exact congrArg (· ++ _) (returnFeeds_of_isLine hline)
    rw [hsplit, run_line hline hc, ← ih]
    by_cases hfeed : c = '\n'
    · subst hfeed
      -- the carriage return ends the line, and the line feed an empty one after it
      have hnil : IsLine [] := by decide
      have hfeeds : returnFeeds ('\n' :: rest) = '\r' :: ([] ++ '\n' :: returnFeeds rest) := rfl
      rw [hfeeds, run_line hline (by decide), run_line hnil (by decide), step_nil]
    · have hfeeds : returnFeeds (c :: rest) = c :: returnFeeds rest := by
        unfold returnFeeds
        rw [List.flatMap_cons, if_neg hfeed]
        rfl
      rw [hfeeds, run_line hline hc]

/-! ## Padding -/

/-- Spaces and tabs. -/
def IsPadding (s : List Char) : Prop :=
  ∀ c ∈ s, c = ' ' ∨ c = '\t'

instance : DecidablePred IsPadding := fun s =>
  decidable_of_iff ((s.all fun c => c == ' ' || c == '\t') = true) <| by
    simp only [IsPadding, List.all_eq_true, Bool.or_eq_true, beq_iff_eq]

/-- Two lines that differ in the spaces and tabs around them only. -/
inductive Repadded : List Char → List Char → Prop where
  | mk {core front back front' back' : List Char} (hf : IsPadding front) (hb : IsPadding back)
      (hf' : IsPadding front') (hb' : IsPadding back') :
      Repadded (front ++ core ++ back) (front' ++ core ++ back')

/-- A line with a key and nothing after its colon. -/
def Bare (line : List Char) : Prop :=
  ¬IsHeader line ∧ ∃ key, line = key ++ [':'] ∧ ':' ∉ key ∧ Text.isBlankText key = false

theorem Repadded.refl (a : List Char) : Repadded a a := by
  have hnil : IsPadding [] := by decide
  have h : Repadded ([] ++ a ++ []) ([] ++ a ++ []) := .mk hnil hnil hnil hnil
  rwa [List.nil_append, List.append_nil] at h

theorem Repadded.symm {a b : List Char} (h : Repadded a b) : Repadded b a := by
  obtain ⟨hf, hb, hf', hb'⟩ := h
  exact .mk hf' hb' hf hb

theorem IsPadding.isBlank {s : List Char} (h : IsPadding s) : ∀ c ∈ s, Text.isBlank c = true := by
  intro c hc
  rcases h c hc with rfl | rfl <;> decide

theorem IsPadding.not_mem {s : List Char} (h : IsPadding s) {c : Char} (hs : c ≠ ' ') (ht : c ≠ '\t') :
    c ∉ s := by
  intro hc
  rcases h c hc with rfl | rfl
  · exact hs rfl
  · exact ht rfl

/-! ## Words and padding -/

/-- A word is not found in what stands before a text if its first character is not. -/
theorem infix_of_infix_append {c : Char} {word front s : List Char} (hc : c ∉ front)
    (h : c :: word <:+: front ++ s) :
    c :: word <:+: s := by
  induction front with
  | nil => exact h
  | cons d front ih =>
    rw [List.mem_cons, not_or] at hc
    rw [List.cons_append, List.infix_cons_iff] at h
    rcases h with hprefix | hinfix
    · exact absurd (List.cons_prefix_cons.1 hprefix).1 hc.1
    · exact ih hc.2 hinfix

/-- Nor in what stands after a text if its last character is not. -/
theorem infix_of_append_infix {c : Char} {word s back : List Char} (hc : c ∉ back)
    (h : word ++ [c] <:+: s ++ back) :
    word ++ [c] <:+: s := by
  rw [← List.reverse_infix, List.reverse_append, List.reverse_append] at h
  rw [← List.reverse_infix, List.reverse_append]
  exact infix_of_infix_append (fun hmem => hc (List.mem_reverse.1 hmem)) h

theorem trim_append_of_blank {s back : List Char} (hb : ∀ c ∈ back, Text.isBlank c = true) :
    Text.trim (s ++ back) = Text.trim s := by
  rw [Text.trim_eq_dropWhile, Text.trim_eq_dropWhile, Text.rdropWhile_append,
    if_pos (List.rdropWhile_eq_nil_iff.2 hb)]

section Padded

variable {front core back : List Char}

theorem trim_padded (hf : IsPadding front) (hb : IsPadding back) :
    Text.trim (front ++ core ++ back) = Text.trim core := by
  rw [trim_append_of_blank hb.isBlank, Text.trim_eq, Text.trim_eq, List.dropWhile_append_of_pos hf.isBlank]

/-- Padding has no header in it, and no part of one. -/
theorem header_padded (hf : IsPadding front) (hb : IsPadding back) (s : Section) :
    s.header.toList <:+: front ++ core ++ back ↔ s.header.toList <:+: core := by
  have hfirst : ∃ c word, s.header.toList = c :: word ∧ c ≠ ' ' ∧ c ≠ '\t' := by
    cases s <;> exact ⟨_, _, rfl, by decide, by decide⟩
  have hlast : ∃ word, s.header.toList = word ++ [':'] := by
    obtain ⟨word, c, h, -⟩ := header_eq s
    exact ⟨word ++ [c], h⟩
  constructor
  · intro h
    obtain ⟨word, hword⟩ := hlast
    rw [hword] at h
    have hfront := infix_of_append_infix (hb.not_mem (by decide) (by decide)) h
    rw [← hword] at hfront
    obtain ⟨c, word', hword', hs, ht⟩ := hfirst
    rw [hword'] at hfront ⊢
    exact infix_of_infix_append (hf.not_mem hs ht) hfront
  · intro h
    exact h.trans ⟨front, back, rfl⟩

theorem opens_padded (hf : IsPadding front) (hb : IsPadding back) {s : Section} :
    Opens s (front ++ core ++ back) ↔ Opens s core := by
  unfold Opens
  simp only [header_padded hf hb]

theorem closes_padded (hf : IsPadding front) (hb : IsPadding back) :
    Closes (front ++ core ++ back) ↔ Closes core := by
  unfold Closes
  simp only [header_padded hf hb, trim_padded hf hb]

theorem isHeader_padded (hf : IsPadding front) (hb : IsPadding back) :
    IsHeader (front ++ core ++ back) ↔ IsHeader core := by
  unfold IsHeader
  simp only [opens_padded hf hb, closes_padded hf hb]

/-- The first colon of a line is that of what the padding is around. -/
theorem colon_padded (hf : IsPadding front) (hb : IsPadding back) {before after : List Char} :
    (front ++ core ++ back = before ++ ':' :: after ∧ ':' ∉ before) ↔
      ∃ key value, (core = key ++ ':' :: value ∧ ':' ∉ key) ∧ before = front ++ key ∧ after = value ++ back := by
  have hfront : ':' ∉ front := hf.not_mem (by decide) (by decide)
  have hback : ':' ∉ back := hb.not_mem (by decide) (by decide)
  have hsplit : ∀ {key value : List Char}, core = key ++ ':' :: value → ':' ∉ key →
      front ++ core ++ back = (front ++ key) ++ ':' :: (value ++ back) ∧ ':' ∉ front ++ key := by
    rintro key value rfl hkey
    refine ⟨by simp, ?_⟩
    rw [List.mem_append, not_or]
    exact ⟨hfront, hkey⟩
  constructor
  · intro h
    have hmem : ':' ∈ core := by
      have hline : ':' ∈ front ++ core ++ back := by rw [h.1]; simp
      simpa [hfront, hback] using hline
    obtain ⟨key, value, hcore, hkey⟩ := List.eq_append_cons_of_mem hmem
    have hsame := (splitColon?_eq_some.2 h).symm.trans (splitColon?_eq_some.2 (hsplit hcore hkey))
    obtain ⟨rfl, rfl⟩ := Prod.mk.inj (Option.some.inj hsame)
    exact ⟨key, value, ⟨hcore, hkey⟩, rfl, rfl⟩
  · rintro ⟨key, value, ⟨hcore, hkey⟩, rfl, rfl⟩
    exact hsplit hcore hkey

theorem isBlankText_padded (hf : IsPadding front) (key : List Char) :
    Text.isBlankText (front ++ key) = Text.isBlankText key := by
  unfold Text.isBlankText
  rw [List.all_append, List.all_eq_true.2 hf.isBlank, Bool.true_and]

theorem normalizeKey_padded (hf : IsPadding front) (key : List Char) :
    normalizeKey (String.ofList (front ++ key)) = normalizeKey (String.ofList key) := by
  have hnil : IsPadding [] := by decide
  have htrim : Text.trim (front ++ key ++ []) = Text.trim key := trim_padded hf hnil
  rw [List.append_nil] at htrim
  unfold normalizeKey
  rw [String.toList_ofList, String.toList_ofList, htrim]

/-- **What a line sets** is told by what the padding is around, but for whether anything stands after the
colon. -/
theorem says_padded (hf : IsPadding front) (hb : IsPadding back) {name text : String} :
    Says (front ++ core ++ back) name text ↔ ¬IsHeader core ∧
      ∃ key value, (core = key ++ ':' :: value ∧ ':' ∉ key) ∧ Text.isBlankText key = false ∧ value ++ back ≠ [] ∧
        normalizeKey (String.ofList key) = name ∧ String.ofList (Text.trim value) = text := by
  constructor
  · rintro ⟨hheader, -, before, after, hline, hcolon, hblank, hafter, hname, htext⟩
    obtain ⟨key, value, hcore, rfl, rfl⟩ := (colon_padded hf hb).1 ⟨hline, hcolon⟩
    rw [isHeader_padded hf hb] at hheader
    rw [isBlankText_padded hf] at hblank
    rw [normalizeKey_padded hf] at hname
    rw [trim_append_of_blank hb.isBlank] at htext
    exact ⟨hheader, key, value, hcore, hblank, hafter, hname, htext⟩
  · rintro ⟨hheader, key, value, hcore, hblank, hafter, hname, htext⟩
    obtain ⟨hline, hcolon⟩ := (colon_padded hf hb).2 ⟨key, value, hcore, rfl, rfl⟩
    rw [← isHeader_padded hf hb] at hheader
    rw [← isBlankText_padded hf] at hblank
    rw [← normalizeKey_padded hf] at hname
    rw [← trim_append_of_blank hb.isBlank] at htext
    have hpair := splitPair?_eq_some.2 ⟨_, _, hline, hcolon, hblank, hafter, hname, htext⟩
    rw [← lineOf_eq_sets, lineOf_of_not_isHeader hheader, hpair]
    rfl

/-- A line is bare if what the padding is around is, and there is no padding behind it. -/
theorem bare_padded (hf : IsPadding front) (hb : IsPadding back) :
    Bare (front ++ core ++ back) ↔ ¬IsHeader core ∧
      ∃ key value, (core = key ++ ':' :: value ∧ ':' ∉ key) ∧ Text.isBlankText key = false ∧
        value ++ back = [] := by
  unfold Bare
  rw [isHeader_padded hf hb]
  apply and_congr_right
  intro _
  constructor
  · rintro ⟨key, hline, hkey, hblank⟩
    obtain ⟨key, value, hcore, rfl, hvalue⟩ := (colon_padded hf hb).1 ⟨hline, hkey⟩
    rw [isBlankText_padded hf] at hblank
    exact ⟨key, value, hcore, hblank, hvalue.symm⟩
  · rintro ⟨key, value, hcore, hblank, hvalue⟩
    obtain ⟨hline, hkey⟩ := (colon_padded hf hb).2 ⟨key, value, hcore, rfl, rfl⟩
    rw [hvalue] at hline
    exact ⟨front ++ key, hline, hkey, by rw [isBlankText_padded hf]; exact hblank⟩

end Padded

/-! ## Two paddings of a line -/

section Repadded

variable {a b : List Char} {name text : String}

/-- A bare line does nothing. -/
theorem Bare.lineOf_eq (h : Bare a) : lineOf a = .nothing := by
  obtain ⟨hheader, key, hline, hkey, -⟩ := h
  have hsplit : splitColon? a = some (key, []) := splitColon?_eq_some.2 ⟨hline, hkey⟩
  have hpair : splitPair? a = none := by
    unfold splitPair?
    rw [hsplit]
    simp
  rw [lineOf_of_not_isHeader hheader, hpair]
  rfl

theorem not_bare_of_lineOf (h : lineOf a ≠ .nothing) : ¬Bare a :=
  fun hbare => h hbare.lineOf_eq

theorem Says.not_bare (h : Says a name text) : ¬Bare a := by
  apply not_bare_of_lineOf
  rw [lineOf_eq_sets.2 h]
  exact Line.noConfusion

/-- What a line sets is set by every padding of it that is not bare. -/
theorem Says.repadded (h : Says a name text) (hab : Repadded a b) (hb : ¬Bare b) : Says b name text := by
  obtain ⟨hf, hk, hf', hk'⟩ := hab
  rw [says_padded hf hk] at h
  rw [bare_padded hf' hk'] at hb
  rw [says_padded hf' hk']
  obtain ⟨hheader, key, value, hcore, hblank, -, hname, htext⟩ := h
  refine ⟨hheader, key, value, hcore, hblank, ?_, hname, htext⟩
  intro hvalue
  exact hb ⟨hheader, key, value, hcore, hblank, hvalue⟩

/-- With padding behind its colon, a bare line sets its key to the empty text. -/
theorem Bare.exists_says (h : Bare a) (hab : Repadded a b) (hb : ¬Bare b) : ∃ name, Says b name "" := by
  obtain ⟨hf, hk, hf', hk'⟩ := hab
  rw [bare_padded hf hk] at h
  rw [bare_padded hf' hk'] at hb
  simp only [says_padded hf' hk']
  obtain ⟨hheader, key, value, hcore, hblank, hvalue⟩ := h
  have hnil : value = [] := (List.append_eq_nil_iff.1 hvalue).1
  refine ⟨_, hheader, key, value, hcore, hblank, ?_, rfl, by rw [hnil]; rfl⟩
  intro hvalue'
  exact hb ⟨hheader, key, value, hcore, hblank, hvalue'⟩

/-- Lines that are told to do the same do the same. -/
theorem lineOf_congr (hopens : ∀ s, Opens s a ↔ Opens s b) (hcloses : Closes a ↔ Closes b)
    (htold : ∀ name text, Says a name text ↔ Says b name text) : lineOf a = lineOf b := by
  simp only [← lineOf_eq_opens] at hopens
  simp only [← lineOf_eq_closes] at hcloses
  simp only [← lineOf_eq_sets] at htold
  cases ha : lineOf a with
  | opens s => exact ((hopens s).1 ha).symm
  | closes => exact (hcloses.1 ha).symm
  | sets name text => exact ((htold name text).1 ha).symm
  | nothing =>
    cases hb : lineOf b with
    | opens s => rw [(hopens s).2 hb] at ha; cases ha
    | closes => rw [hcloses.2 hb] at ha; cases ha
    | sets name text => rw [(htold name text).2 hb] at ha; cases ha
    | nothing => rfl

/-- **Two paddings of a line do the same** exactly if both are bare or none is. -/
theorem lineOf_eq_iff (hab : Repadded a b) : lineOf a = lineOf b ↔ (Bare a ↔ Bare b) := by
  have hdiffer : ∀ {a b : List Char}, Repadded a b → lineOf a = lineOf b → Bare a → Bare b := by
    intro a b hab hsame ha
    by_contra hb
    obtain ⟨name, htold⟩ := ha.exists_says hab hb
    rw [ha.lineOf_eq, lineOf_eq_sets.2 htold] at hsame
    cases hsame
  constructor
  · intro hsame
    exact ⟨hdiffer hab hsame, hdiffer hab.symm hsame.symm⟩
  · intro hbare
    have hopens : ∀ s, Opens s a ↔ Opens s b := by
      intro s
      obtain ⟨hf, hk, hf', hk'⟩ := hab
      rw [opens_padded hf hk, opens_padded hf' hk']
    have hcloses : Closes a ↔ Closes b := by
      obtain ⟨hf, hk, hf', hk'⟩ := hab
      rw [closes_padded hf hk, closes_padded hf' hk']
    apply lineOf_congr hopens hcloses
    intro name text
    constructor
    · intro h
      exact h.repadded hab fun hb => h.not_bare (hbare.2 hb)
    · intro h
      exact h.repadded hab.symm fun ha => h.not_bare (hbare.1 ha)

end Repadded

/-! ## Whole reports -/

/-- A text that is empty or starts with a line end: what stands before it ends a line. -/
def StartsWithEnd (text : String) : Prop :=
  ∀ c, text.toList.head? = some c → isLineEnd c = true

theorem Repadded.isLine {a b : List Char} (h : Repadded a b) (ha : IsLine a) : IsLine b := by
  obtain ⟨-, -, hf, hb⟩ := h
  rename_i core front back front' back'
  have hpadding : ∀ {s : List Char}, IsPadding s → IsLine s := by
    intro s hs c hc
    rcases hs c hc with rfl | rfl <;> decide
  intro c hc
  rcases List.mem_append.1 hc with hc | hc
  · rcases List.mem_append.1 hc with hc | hc
    · exact hpadding hf c hc
    · exact ha c (List.mem_append_left _ (List.mem_append_right _ hc))
  · exact hpadding hb c hc

theorem parse_congr {s t : String} (h : LineByLine (fun a b => lineOf a = lineOf b) s.toList t.toList) :
    parse s = parse t := by
  rw [parse_eq_run, parse_eq_run, Progress.run_congr h]

/-- A line that does the same may stand in place of another, whatever stands around it. -/
theorem parse_around {a b before after : String} (ha : IsLine a.toList) (hb : IsLine b.toList)
    (h : lineOf a.toList = lineOf b.toList) (hbefore : EndsLine before) (hafter : StartsWithEnd after) :
    parse (before ++ a ++ after) = parse (before ++ b ++ after) := by
  apply parse_congr
  simp only [String.toList_append, List.append_assoc]
  have hrefl : ∀ line, lineOf line = lineOf line := fun _ => rfl
  exact .prepend hrefl hbefore (.append hrefl ha hb h hafter)

/-- Under a header, a line is read by itself. -/
theorem parse_under_header {line : String} (hline : IsLine line.toList) :
    parse ("VARIABLES:\n" ++ line) = (Progress.step ⟨.empty, some .variables⟩ line.toList).report := by
  have hheader : IsLine "VARIABLES:".toList := by decide
  have htext : ("VARIABLES:\n" ++ line).toList = "VARIABLES:".toList ++ '\n' :: line.toList := by
    rw [String.toList_append]
    rfl
  have hstep : Progress.step ⟨.empty, none⟩ "VARIABLES:".toList = ⟨.empty, some .variables⟩ := by
    unfold Progress.step
    rw [show lineOf "VARIABLES:".toList = .opens .variables from lineOf_header .variables]
  rw [parse_eq_run, htext, Progress.run_line hheader (by decide), hstep, Progress.run_last hline]

/-- A header tells a bare line from its paddings that are not bare. -/
theorem Bare.of_under_header {a b : String} (hbare : Bare a.toList) (ha : IsLine a.toList)
    (hab : Repadded a.toList b.toList) (hsame : parse ("VARIABLES:\n" ++ a) = parse ("VARIABLES:\n" ++ b)) :
    Bare b.toList := by
  by_contra hnot
  obtain ⟨name, htold⟩ := hbare.exists_says hab hnot
  have hempty : parse ("VARIABLES:\n" ++ a) = .empty := by
    rw [parse_under_header ha]
    unfold Progress.step
    rw [hbare.lineOf_eq]
  have hset : parse ("VARIABLES:\n" ++ b) = MemoryReport.empty.set .variables name "" := by
    rw [parse_under_header (hab.isLine ha)]
    unfold Progress.step
    rw [lineOf_eq_sets.2 htold]
  have hvalue : Assoc.find? name ((MemoryReport.empty.set .variables name "").table .variables) = some "" := by
    rw [table_set, if_pos rfl, Assoc.find?_set, if_pos rfl]
  rw [← hset, ← hsame, hempty, find?_empty] at hvalue
  cases hvalue

/-- **Padding and line ends make no difference to a report, but for padding after the colon of a bare key.** A
text whose lines differ in padding only, and are bare exactly where the lines of the other are, is read as the
same report. A carriage return before each line feed makes no difference. And two paddings of a line can stand
for each other in every report exactly if both are bare or none is. -/
theorem parse_repadded (text : String) :
    (∀ other : String, LineByLine (fun a b => Repadded a b ∧ (Bare a ↔ Bare b)) text.toList other.toList →
      parse text = parse other) ∧
    parse (String.ofList (returnFeeds text.toList)) = parse text ∧
    (IsLine text.toList → ∀ other : String, Repadded text.toList other.toList →
      ((∀ before after : String, EndsLine before → StartsWithEnd after →
        parse (before ++ text ++ after) = parse (before ++ other ++ after)) ↔
          (Bare text.toList ↔ Bare other.toList))) := by
  refine ⟨?_, ?_, ?_⟩
  · intro other h
    apply parse_congr
    apply h.mono
    rintro a b ⟨hab, hbare⟩
    exact (lineOf_eq_iff hab).2 hbare
  · rw [parse_eq_run, String.toList_ofList, Progress.run_returnFeeds, ← parse_eq_run]
  · intro htext other hother
    have hline := hother.isLine htext
    constructor
    · intro hsame
      have hunder : parse ("VARIABLES:\n" ++ text) = parse ("VARIABLES:\n" ++ other) := by
        have h := hsame "VARIABLES:\n" "" (by decide) (fun c hc => absurd hc (by simp))
        rwa [String.append_empty, String.append_empty] at h
      constructor
      · intro hbare
        exact hbare.of_under_header htext hother hunder
      · intro hbare
        exact hbare.of_under_header hline hother.symm hunder.symm
    · intro hbare before after hbefore hafter
      exact parse_around htext hline ((lineOf_eq_iff hother).2 hbare) hbefore hafter

theorem parse_repadded_returns :
    parse "VARIABLES:\nx: 1" = parse "\tVARIABLES: \n  x: 1\t" ∧
      parse (String.ofList (returnFeeds "VARIABLES:\nx: 1".toList)) = parse "VARIABLES:\nx: 1" ∧
      ¬∀ before after : String, EndsLine before → StartsWithEnd after →
        parse (before ++ "Empty:" ++ after) = parse (before ++ "Empty: " ++ after) := by
  refine ⟨(parse_repadded _).1 _ ?_, (parse_repadded _).2.1, ?_⟩
  · have hheader : Repadded "VARIABLES:".toList "\tVARIABLES: ".toList :=
      @Repadded.mk "VARIABLES:".toList [] [] ['\t'] [' '] (by decide) (by decide) (by decide) (by decide)
    have hpair : Repadded "x: 1".toList "  x: 1\t".toList :=
      @Repadded.mk "x: 1".toList [] [] [' ', ' '] ['\t'] (by decide) (by decide) (by decide) (by decide)
    apply LineByLine.more (a := "VARIABLES:".toList) (b := "\tVARIABLES: ".toList) (c := '\n')
      (s := "x: 1".toList)
      (t := "  x: 1\t".toList)
    · decide
    · decide
    · decide
    · exact ⟨hheader, iff_of_false (not_bare_of_lineOf (by decide)) (not_bare_of_lineOf (by decide))⟩
    · apply LineByLine.last (by decide) (by decide)
      exact ⟨hpair, iff_of_false (not_bare_of_lineOf (by decide)) (not_bare_of_lineOf (by decide))⟩
  · have hempty : Repadded "Empty:".toList "Empty: ".toList :=
      @Repadded.mk "Empty:".toList [] [] [] [' '] (by decide) (by decide) (by decide) (by decide)
    have hbare : Bare "Empty:".toList := ⟨by decide, "Empty".toList, by decide, by decide, by decide⟩
    have hnot : ¬Bare "Empty: ".toList := not_bare_of_lineOf (by decide)
    rw [(parse_repadded _).2.2 (by decide) _ hempty]
    exact fun h => hnot (h.1 hbare)

/-- Padding does make a difference after the colon of a key without a value: it sets the key to the empty text. -/
theorem parse_bare_differs : ¬∀ s t : String, LineByLine Repadded s.toList t.toList → parse s = parse t := by
  intro hsame
  have hempty : Repadded "  Empty: ".toList "  Empty:".toList :=
    @Repadded.mk "Empty:".toList [' ', ' '] [' '] [' ', ' '] [] (by decide) (by decide) (by decide) (by decide)
  have hlines : LineByLine Repadded ("LITERALS:\n".toList ++ ("  Empty: ".toList ++ ['\n']))
      ("LITERALS:\n".toList ++ ("  Empty:".toList ++ ['\n'])) := by
    have hbefore : EndsLine "LITERALS:\n" := by decide
    have hafter : StartsWithEnd "\n" := by
      rintro c ⟨⟩
      decide
    exact .prepend Repadded.refl hbefore (.append Repadded.refl (by decide) (by decide) hempty hafter)
  have h : parse "LITERALS:\n  Empty: \n" = parse "LITERALS:\n  Empty:\n" := hsame _ _ hlines
  exact absurd h (by decide +kernel)

end MemoryReport

end Demotion
