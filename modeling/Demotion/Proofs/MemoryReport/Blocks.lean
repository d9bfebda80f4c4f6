import Demotion.Proofs.MemoryReport.Meaning

/-!
# Memory reports block by block

A header takes nothing over from the lines above it. So a report that goes on with a header is read in two
parts, and blocks that start with headers may be put in another order.

* `lines_append`: a text that ends a line has its lines before those of what follows.
* `Progress.On`: one reading is another one on top of a report. Each line keeps it (`On.step`), and so do any
  number of lines (`On.run`).
* `valueIn_append`: what is read of two parts, the second of which starts with a header.
* `valueIn_join_iff`: what is read of blocks that share no key of a section.
* `parse_blocks`: **a report is read block by block, whatever the order of the blocks.**
-/

namespace Demotion

/-! ## Lines of two texts -/

namespace Text

theorem lines_cons {c : Char} {s : List Char} (h : c = '\r' → s.head? ≠ some '\n') :
    lines (c :: s) = if isLineEnd c then [] :: lines s else consHead c (lines s) := by
  rw [lines.eq_def]
  split
  · rename_i heq; cases heq
  · rename_i rest heq
    obtain ⟨rfl, rfl⟩ := List.cons.inj heq
    exact absurd rfl (h rfl)
  · rename_i heq
    obtain ⟨rfl, rfl⟩ := List.cons.inj heq
    rfl

theorem lines_returnFeed (s : List Char) : lines ('\r' :: '\n' :: s) = [] :: lines s := rfl

theorem lines_ne_nil {s : List Char} (h : s ≠ []) : lines s ≠ [] := by
  fun_cases lines s with
  | case1 => exact absurd rfl h
  | case2 rest => exact List.cons_ne_nil _ _
  | case3 c rest hcr hend => exact List.cons_ne_nil _ _
  | case4 c rest hcr hend => cases lines rest <;> exact List.cons_ne_nil _ _

/-- A text that ends a line has its lines before those of what follows. A carriage return at its end must not
belong to a line feed after it. -/
theorem lines_append {s t : List Char} (hs : ∀ c, s.getLast? = some c → isLineEnd c = true)
    (ht : s.getLast? = some '\r' → t.head? ≠ some '\n') : lines (s ++ t) = lines s ++ lines t := by
  -- what holds of the end of a text holds of the end of what is left of it
  have hlast : ∀ {c d : Char} {rest : List Char}, rest.getLast? = some d → (c :: rest).getLast? = some d := by
    intro c d rest h
    rw [List.getLast?_cons, h]
    rfl
  fun_induction lines s with
  | case1 => rfl
  | case2 rest ih =>
    have hrest := ih (fun c hc => hs c (hlast (hlast hc))) (fun hc => ht (hlast (hlast hc)))
    rw [List.cons_append, List.cons_append, lines_returnFeed, hrest]
    rfl
  | case3 c rest hcr hend ih =>
    have hrest := ih (fun d hd => hs d (hlast hd)) (fun hd => ht (hlast hd))
    have hnext : c = '\r' → (rest ++ t).head? ≠ some '\n' := by
      intro hc
      cases rest with
      | nil => exact ht (by rw [hc]; rfl)
      | cons d rest =>
        intro hd
        exact hcr rest hc (by rw [Option.some.inj hd])
    rw [List.cons_append, lines_cons hnext, if_pos hend, hrest]
    rfl
  | case4 c rest hcr hend ih =>
    have hrest := ih (fun d hd => hs d (hlast hd)) (fun hd => ht (hlast hd))
    -- the character ends no line, so it is not the last
    have hne : rest ≠ [] := by
      intro hnil
      exact hend (hs c (by rw [hnil]; rfl))
    have hreturn : c = '\r' → (rest ++ t).head? ≠ some '\n' := by
      intro hc
      exact absurd (by rw [hc]; decide) hend
    rw [List.cons_append, lines_cons hreturn, if_neg hend, hrest]
    cases hlines : lines rest with
    | nil => exact absurd hlines (lines_ne_nil hne)
    | cons line lines => rfl

end Text

namespace MemoryReport

/-! ## Reading on top of a report -/

/-- `p` has come as far as `q`, on top of the report `r`: what `q` has read counts more than what is in `r`. -/
structure Progress.On (p q : Progress) (r : MemoryReport) : Prop where
  current : p.current = q.current
  value : ∀ s key, Assoc.find? key (p.report.table s) =
    (Assoc.find? key (q.report.table s)).or (Assoc.find? key (r.table s))

section On

variable {p q : Progress} {r : MemoryReport}

/-- One more line keeps this. -/
theorem Progress.On.step (h : p.On q r) (line : List Char) : (p.step line).On (q.step line) r := by
  obtain ⟨hcurrent, hvalue⟩ := h
  unfold Progress.step
  cases lineOf line with
  | opens s => exact ⟨rfl, hvalue⟩
  | closes => exact ⟨rfl, hvalue⟩
  | nothing => exact ⟨hcurrent, hvalue⟩
  | sets name value =>
    rw [hcurrent]
    cases hq : q.current with
    | none => exact ⟨hcurrent, hvalue⟩
    | some s' =>
      refine ⟨rfl, ?_⟩
      intro s key
      show Assoc.find? key ((p.report.set s' name value).table s) =
        (Assoc.find? key ((q.report.set s' name value).table s)).or (Assoc.find? key (r.table s))
      rw [table_set, table_set]
      by_cases hs : s' = s
      · rw [if_pos hs, if_pos hs, Assoc.find?_set, Assoc.find?_set]
        by_cases hkey : name = key
        · rw [if_pos hkey, if_pos hkey]
          rfl
        · rw [if_neg hkey, if_neg hkey]
          exact hvalue s key
      · rw [if_neg hs, if_neg hs]
        exact hvalue s key

/-- And so does any number of lines. -/
theorem Progress.On.run (h : p.On q r) (lines : List (List Char)) :
    (lines.foldl Progress.step p).On (lines.foldl Progress.step q) r := by
  induction lines generalizing p q with
  | nil => exact h
  | cons line lines ih => exact ih (h.step line)

end On

theorem find?_empty (s : Section) (key : String) : Assoc.find? key (MemoryReport.empty.table s) = none := by
  cases s <;> rfl

/-- A header forgets which section was open. -/
theorem step_header {line : List Char} (h : IsHeader line) (p : Progress) :
    (p.step line).On ((⟨.empty, none⟩ : Progress).step line) p.report := by
  have hvalue : ∀ s key, Assoc.find? key (p.report.table s) =
      (Assoc.find? key (MemoryReport.empty.table s)).or (Assoc.find? key (p.report.table s)) := by
    intro s key
    rw [find?_empty]
    rfl
  unfold Progress.step
  rcases isHeader_iff.1 h with ⟨s, hs⟩ | hs
  · rw [hs]
    exact ⟨rfl, hvalue⟩
  · rw [hs]
    exact ⟨rfl, hvalue⟩

/-- Lines of which the first is a header are read as if nothing stood above them. -/
theorem scan_append {front : List (List Char)} {header : List Char} (h : IsHeader header)
    (back : List (List Char)) :
    (scan (front ++ header :: back)).On (scan (header :: back)) (scan front).report := by
  unfold scan
  rw [List.foldl_append, List.foldl_cons, List.foldl_cons]
  exact (step_header h _).run back

/-! ## Texts in parts -/

/-- The value that a text gives to a key of a section. -/
def valueIn (text : String) (s : Section) (key : String) : Option String :=
  Assoc.find? key ((parse text).entries s)

/-- A text that is empty or ends with a line end: what follows it starts a line. -/
def EndsLine (text : String) : Prop :=
  ∀ c, text.toList.getLast? = some c → Text.isLineEnd c = true

/-- A text that is empty or has a header, of either kind, for its first line. -/
def StartsWithHeader (text : String) : Prop :=
  ∀ line, (Text.lines text.toList).head? = some line → IsHeader line

instance : DecidablePred IsHeader := fun line =>
  decidable_of_iff ((∃ s ∈ Section.all, lineOf line = .opens s) ∨ lineOf line = .closes) <| by
    simp only [isHeader_iff, Section.mem_all, true_and]

instance : DecidablePred EndsLine := fun text =>
  decidable_of_iff (text.toList.getLast?.all Text.isLineEnd = true) <| by
    simp only [EndsLine, Option.all_eq_true]

instance : DecidablePred StartsWithHeader := fun text =>
  decidable_of_iff (∀ line ∈ (Text.lines text.toList).head?, IsHeader line) Iff.rfl

theorem mem_entries_iff_valueIn {text : String} {s : Section} {key value : String} :
    (key, value) ∈ (parse text).entries s ↔ valueIn text s key = some value :=
  Assoc.mem_iff_find? (nodup_keys_entries text s)

theorem valueIn_eq (text : String) (s : Section) (key : String) :
    valueIn text s key = Assoc.find? key ((scan (Text.lines text.toList)).report.table s) := by
  apply Option.ext
  intro value
  rw [← mem_entries_iff_valueIn]
  exact Table.mem_withFirst nodup_keys_table _

theorem not_isHeader_nil : ¬IsHeader [] := by
  rw [isHeader_iff]
  rintro (⟨s, hs⟩ | hs)
  · cases s <;> exact absurd hs (by decide)
  · exact absurd hs (by decide)

/-- A line feed would be an empty first line. -/
theorem StartsWithHeader.head?_ne {text : String} (h : StartsWithHeader text) :
    text.toList.head? ≠ some '\n' := by
  intro hhead
  obtain ⟨rest, hrest⟩ := List.head?_eq_some_iff.1 hhead
  apply not_isHeader_nil
  apply h
  rw [hrest, Text.lines_cons fun hc => absurd hc (by decide)]
  rfl

section Parts

variable {front back : String}

theorem lines_parts (hfront : EndsLine front) (hback : StartsWithHeader back) :
    Text.lines (front ++ back).toList = Text.lines front.toList ++ Text.lines back.toList := by
  rw [String.toList_append]
  exact Text.lines_append hfront fun _ => hback.head?_ne

/-- What is read of two parts: a key of a section has the value that the second part gives to it, and if it
gives none, the value that the first part gives. -/
theorem valueIn_append (hfront : EndsLine front) (hback : StartsWithHeader back) (s : Section) (key : String) :
    valueIn (front ++ back) s key = (valueIn back s key).or (valueIn front s key) := by
  rw [valueIn_eq, valueIn_eq, valueIn_eq, lines_parts hfront hback]
  cases hlines : Text.lines back.toList with
  | nil =>
    have hnone : Assoc.find? key ((scan []).report.table s) = none := find?_empty s key
    rw [List.append_nil, hnone]
    rfl
  | cons header lines =>
    have hheader : IsHeader header := hback header (by rw [hlines]; rfl)
    exact (scan_append hheader lines).value s key

end Parts

/-! ## Blocks -/

/-- A block: it starts with a header and ends a line. -/
structure IsBlock (text : String) : Prop where
  header : ∃ line, (Text.lines text.toList).head? = some line ∧ IsHeader line
  ended : EndsLine text

/-- No key of a section has a value in both texts. -/
def SharesNoKey (text other : String) : Prop :=
  ∀ s key, valueIn text s key = none ∨ valueIn other s key = none

instance : DecidablePred IsBlock := fun text =>
  decidable_of_iff ((∃ line ∈ (Text.lines text.toList).head?, IsHeader line) ∧ EndsLine text)
    ⟨fun h => ⟨h.1, h.2⟩, fun h => ⟨h.header, h.ended⟩⟩

/-- It is enough to look for the keys that the first text has. -/
theorem sharesNoKey_iff {text other : String} :
    SharesNoKey text other ↔
      ∀ s ∈ Section.all, ∀ e ∈ (parse text).entries s, valueIn other s e.1 = none := by
  constructor
  · intro h s _ e he
    have hvalue := mem_entries_iff_valueIn.1 he
    rcases h s e.1 with hnone | hnone
    · rw [hvalue] at hnone; cases hnone
    · exact hnone
  · intro h s key
    cases hvalue : valueIn text s key with
    | none => exact Or.inl rfl
    | some value => exact Or.inr (h s s.mem_all (key, value) (mem_entries_iff_valueIn.2 hvalue))

instance (text other : String) : Decidable (SharesNoKey text other) :=
  decidable_of_iff _ sharesNoKey_iff.symm

theorem startsWithHeader_join {blocks : List String} (h : ∀ b ∈ blocks, IsBlock b) :
    StartsWithHeader (String.join blocks) := by
  induction blocks with
  | nil =>
    intro line hline
    cases hline
  | cons b blocks ih =>
    have hb := h b List.mem_cons_self
    have hrest := ih fun d hd => h d (List.mem_cons_of_mem _ hd)
    obtain ⟨line, hline, hheader⟩ := hb.header
    intro first hfirst
    rw [String.join_cons, lines_parts hb.ended hrest, List.head?_append, hline] at hfirst
    exact Option.some.inj hfirst ▸ hheader

theorem valueIn_join_nil (s : Section) (key : String) : valueIn (String.join []) s key = none := by
  rw [valueIn_eq]
  exact find?_empty s key

/-- Of blocks that share no key, a value is read exactly if one of them gives it. -/
theorem valueIn_join_iff {blocks : List String} (h : ∀ b ∈ blocks, IsBlock b)
    (hd : blocks.Pairwise SharesNoKey) (s : Section) (key value : String) :
    valueIn (String.join blocks) s key = some value ↔ ∃ b ∈ blocks, valueIn b s key = some value := by
  induction blocks generalizing value with
  | nil =>
    rw [valueIn_join_nil]
    constructor
    · intro hnone
      cases hnone
    · rintro ⟨b, hb, -⟩
      exact absurd hb List.not_mem_nil
  | cons b blocks ih =>
    rw [List.pairwise_cons] at hd
    have hblocks : ∀ d ∈ blocks, IsBlock d := fun d hd => h d (List.mem_cons_of_mem _ hd)
    have hrest := ih hblocks hd.2
    -- where the first block gives a value, the others give none
    have hnone : ∀ v, valueIn b s key = some v → valueIn (String.join blocks) s key = none := by
      intro v hv
      rw [Option.eq_none_iff_forall_ne_some]
      intro w hw
      obtain ⟨d, hmem, hdw⟩ := (hrest w).1 hw
      rcases hd.1 d hmem s key with hb | hb
      · rw [hb] at hv; cases hv
      · rw [hb] at hdw; cases hdw
    rw [String.join_cons, valueIn_append (h b List.mem_cons_self).ended (startsWithHeader_join hblocks),
      Option.or_eq_some_iff]
    constructor
    · rintro (hvalue | ⟨-, hvalue⟩)
      · obtain ⟨d, hmem, hdv⟩ := (hrest value).1 hvalue
        exact ⟨d, List.mem_cons_of_mem _ hmem, hdv⟩
      · exact ⟨b, List.mem_cons_self, hvalue⟩
    · rintro ⟨d, hmem, hdv⟩
      rcases List.mem_cons.1 hmem with rfl | hmem
      · exact Or.inr ⟨hnone value hdv, hdv⟩
      · exact Or.inl ((hrest value).2 ⟨d, hmem, hdv⟩)

theorem SharesNoKey.symm {text other : String} (h : SharesNoKey text other) : SharesNoKey other text :=
  fun s key => (h s key).symm

theorem valueIn_join_perm {blocks blocks' : List String} (h : ∀ b ∈ blocks, IsBlock b)
    (hd : blocks.Pairwise SharesNoKey) (hperm : blocks.Perm blocks') (s : Section) (key : String) :
    valueIn (String.join blocks) s key = valueIn (String.join blocks') s key := by
  have h' : ∀ b ∈ blocks', IsBlock b := fun b hb => h b (hperm.mem_iff.2 hb)
  have hd' : blocks'.Pairwise SharesNoKey := (hperm.pairwise_iff fun hab => hab.symm).1 hd
  apply Option.ext
  intro value
  rw [valueIn_join_iff h hd, valueIn_join_iff h' hd']
  constructor
  · rintro ⟨b, hb, hvalue⟩
    exact ⟨b, hperm.mem_iff.1 hb, hvalue⟩
  · rintro ⟨b, hb, hvalue⟩
    exact ⟨b, hperm.mem_iff.2 hb, hvalue⟩

/-- **A report is read block by block.** If the first part ends a line and the second starts with a header, a
key of a section has the value that the second part gives to it, or else that of the first. Blocks that share
no key of a section give the same values in every order. -/
theorem parse_blocks :
    (∀ front back : String, EndsLine front → StartsWithHeader back → ∀ s key,
      valueIn (front ++ back) s key = (valueIn back s key).or (valueIn front s key)) ∧
    ∀ blocks blocks' : List String, (∀ b ∈ blocks, IsBlock b) → blocks.Pairwise SharesNoKey →
      blocks.Perm blocks' → ∀ s key,
        valueIn (String.join blocks) s key = valueIn (String.join blocks') s key :=
  ⟨fun _ _ hfront hback s key => valueIn_append hfront hback s key,
    fun _ _ h hd hperm s key => valueIn_join_perm h hd hperm s key⟩

/-- A section that comes twice, with a closing header between, and a key that is set twice. -/
theorem parse_blocks_repeated :
    (EndsLine "MEMORY USAGE:\nSaved: 5\nTotal : 80\n" ∧
      StartsWithHeader "NOTES:\nSaved: 6\nMEMORY USAGE:\r\n SAVED: 7" ∧
      valueIn ("MEMORY USAGE:\nSaved: 5\nTotal : 80\n" ++ "NOTES:\nSaved: 6\nMEMORY USAGE:\r\n SAVED: 7") .memory
        "saved" = some "7") ∧
    (∀ b ∈ ["LITERALS:\na: 1\n", "END:\nx: 1\nLITERALS:\nb: 2\n"], IsBlock b) ∧
      ["LITERALS:\na: 1\n", "END:\nx: 1\nLITERALS:\nb: 2\n"].Pairwise SharesNoKey ∧
      valueIn (String.join ["LITERALS:\na: 1\n", "END:\nx: 1\nLITERALS:\nb: 2\n"]) .literals "b" =
        valueIn (String.join ["END:\nx: 1\nLITERALS:\nb: 2\n", "LITERALS:\na: 1\n"]) .literals "b" := by
  have hends : EndsLine "MEMORY USAGE:\nSaved: 5\nTotal : 80\n" := by decide +kernel
  have hstarts : StartsWithHeader "NOTES:\nSaved: 6\nMEMORY USAGE:\r\n SAVED: 7" := by decide +kernel
  have hblocks : ∀ b ∈ ["LITERALS:\na: 1\n", "END:\nx: 1\nLITERALS:\nb: 2\n"], IsBlock b := by decide +kernel
  have hshare : ["LITERALS:\na: 1\n", "END:\nx: 1\nLITERALS:\nb: 2\n"].Pairwise SharesNoKey := by
    decide +kernel
  refine ⟨⟨hends, hstarts, (parse_blocks.1 _ _ hends hstarts _ _).trans (by decide +kernel)⟩, hblocks, hshare, ?_⟩
  exact parse_blocks.2 _ _ hblocks hshare (List.Perm.swap _ _ []) .literals "b"

end MemoryReport

end Demotion
