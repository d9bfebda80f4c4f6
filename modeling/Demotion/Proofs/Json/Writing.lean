import Demotion.Json.Printer
import Demotion.Proofs.Json.Leaves
import Demotion.Proofs.Text.Content

/-!
# What is written is JSON

The printer breaks lines and escapes characters as it likes; what it writes is a JSON text all the same, and the
value of this text is the value that was written.

* `lookup_record`: the members of an object that is made of names and values.
* `Style.Expresses`: the values that a style can express, with a bound on how deep containers stand.
* `literal_flatMap`: a string, character by character. What is escaped is read back.
* `items_flatMap`: the items of a container, each on a line of its own.
* `value_write`: a value, by induction on how it is built.
* `text_render`: **the text of a value is a JSON text that has this value.**
-/

namespace Demotion

namespace Json

variable {S : Style}

/-! ## Objects -/

/-- The member of a name in an object that was made of names and values. -/
theorem lookup_record (members : List (String × Json)) (name : String) :
    lookup (members.map fun m => (Content.ofText m.1, m.2)) name =
      (members.reverse.find? fun m => m.1 = name).map (·.2) := by
  unfold lookup
  rw [← List.map_reverse, List.find?_map, Option.map_map]
  simp only [Function.comp_def, Content.ofText_injective.eq_iff]

/-! ## Texts -/

theorem isTextContent_eq_true {c : Content} : isTextContent c = true ↔ ∀ n, .half n ∉ c :=
  CodePoint.isSome_text?

@[simp]
theorem isTextContent_ofText (s : String) : isTextContent (Content.ofText s) = true :=
  isTextContent_eq_true.2 (Content.half_not_mem_ofText s)

/-! ## Values that can be expressed -/

/-- A text in which every character stands for itself. -/
def Style.Keeps (S : Style) (content : Content) : Prop :=
  ∃ s : List Char, content = s.map .char ∧ ∀ c ∈ s, S.shown c = c

/-- A value in which containers stand at most `depth` deep, numbers are well spelled and strings are kept. -/
inductive Style.Expresses (S : Style) : Nat → Json → Prop where
  | null {depth : Nat} : Expresses S depth .null
  | bool {depth : Nat} (b : Bool) : Expresses S depth (.bool b)
  | number {depth : Nat} {spelling : String}
      (h : IsNumber spelling.toList ∨ spelling ∈ ["NaN", "Infinity", "-Infinity"]) :
      Expresses S depth (.number spelling)
  | string {depth : Nat} {content : Content} (h : S.Keeps content) : Expresses S depth (.string content)
  | array {depth : Nat} {items : List Json} (h : ∀ v ∈ items, Expresses S depth v) :
      Expresses S (depth + 1) (.array items)
  | object {depth : Nat} {members : List (Content × Json)} (hn : ∀ m ∈ members, S.Keeps m.1)
      (h : ∀ m ∈ members, Expresses S depth m.2) : Expresses S (depth + 1) (.object members)

/-- A content is a text at whose head a rule finds a value, whatever follows. -/
def Shows {α : Type} (rule : List Char → α → List Char → Prop) (content : Content) (a : α) : Prop :=
  ∃ s : List Char, content = s.map .char ∧ ∀ rest, rule (s ++ rest) a rest

/-! ## Strings -/

/-- The four digits of a control character. -/
theorem isHex_hex {n : Nat} (hn : n < 0x20) :
    ∃ a b c d, Text.hex 4 n = [a, b, c, d] ∧ IsHex a b c d n := by
  have hdigit : ∀ k < 16, IsHexDigit (Nat.digitChar k) k := by
    intro k hk
    interval_cases k <;> exact Or.inl rfl
  have hdigits : Text.hex 4 n = ['0', '0', Nat.digitChar (n / 16), Nat.digitChar (n % 16)] := by
    interval_cases n <;> decide
  have hvalue : 0 * 0x1000 + 0 * 0x100 + n / 16 * 0x10 + n % 16 = n := by omega
  have hhex := IsHex.mk (hdigit 0 (by decide)) (hdigit 0 (by decide)) (hdigit (n / 16) (by omega))
    (hdigit (n % 16) (by omega))
  rw [hvalue] at hhex
  exact ⟨_, _, _, _, hdigits, hhex⟩

/-- How a character is written: by a letter, by its number, or as itself. -/
theorem writeChar_cases (c : Char) :
    (∃ e, (e, c) ∈ escapes ∧ writeChar c = ['\\', e]) ∨
      (c.toNat < 0x20 ∧ writeChar c = '\\' :: 'u' :: Text.hex 4 c.toNat) ∨
      (c ≠ '"' ∧ c ≠ '\\' ∧ ' ' ≤ c ∧ writeChar c = [c]) := by
  by_cases hescape : c ∈ ['"', '\\', '\n', '\r', '\t', '\x0c', '\x08']
  · left
    simp only [List.mem_cons, List.not_mem_nil, or_false] at hescape
    rcases hescape with rfl | rfl | rfl | rfl | rfl | rfl | rfl
    · exact ⟨'"', by decide, rfl⟩
    · exact ⟨'\\', by decide, rfl⟩
    · exact ⟨'n', by decide, rfl⟩
    · exact ⟨'r', by decide, rfl⟩
    · exact ⟨'t', by decide, rfl⟩
    · exact ⟨'f', by decide, rfl⟩
    · exact ⟨'b', by decide, rfl⟩
  · right
    simp only [List.mem_cons, List.not_mem_nil, or_false, not_or] at hescape
    obtain ⟨hq, hb, hn, hr, ht, hf, hbs⟩ := hescape
    unfold writeChar
    simp only [if_neg hq, if_neg hb, if_neg hn, if_neg hr, if_neg ht, if_neg hf, if_neg hbs]
    by_cases hcontrol : c.toNat < 0x20
    · exact Or.inl ⟨hcontrol, if_pos hcontrol⟩
    · exact Or.inr ⟨hq, hb, space_le_iff.2 hcontrol, if_neg hcontrol⟩

/-- A character that was written is read as this character. -/
theorem literal_writeChar {c : Char} (hc : S.shown c = c) {s rest : List Char} {p : Content}
    (h : S.Literal s p rest) : S.Literal (writeChar c ++ s) (.char c :: p) rest := by
  rcases writeChar_cases c with ⟨e, he, hw⟩ | ⟨hcontrol, hw⟩ | ⟨hq, hb, hle, hw⟩
  · rw [hw]
    exact .escape he h
  · obtain ⟨a, b, d, e, hhex, hn⟩ := isHex_hex hcontrol
    have hhigh : ¬IsHighHalf c.toNat := fun hh => by have := hh.1; omega
    have hlow : ¬IsLowHalf c.toNat := fun hl => by have := hl.1; omega
    have hcode := Style.Literal.code (S := S) hn hhigh hlow h
    rw [Char.ofNat_toNat] at hcode
    rw [hw, hhex]
    exact hcode
  · have hchar := Style.Literal.char hq hb hle h
    rw [hc] at hchar
    rw [hw]
    exact hchar

theorem literal_flatMap {s : List Char} (hs : ∀ c ∈ s, S.shown c = c) (rest : List Char) :
    S.Literal (s.flatMap writeChar ++ '"' :: rest) (s.map .char) rest := by
  induction s with
  | nil => exact .close
  | cons c s ih =>
    rw [List.flatMap_cons, List.append_assoc, List.map_cons]
    exact literal_writeChar (hs c List.mem_cons_self) (ih fun d hd => hs d (List.mem_cons_of_mem _ hd))

/-- The text of a string is its characters between quotes. -/
theorem writeString_map_char (s : List Char) :
    writeString (s.map .char) = ('"' :: (s.flatMap writeChar ++ ['"'])).map .char := by
  have hbody : (s.map CodePoint.char).flatMap writeCodePoint = (s.flatMap writeChar).map .char := by
    rw [List.flatMap_map, List.map_flatMap]
    rfl
  unfold writeString
  rw [hbody, List.map_cons, List.map_append]
  rfl

theorem shows_writeString {content : Content} (h : S.Keeps content) :
    Shows S.Scalar (writeString content) (.string content) := by
  obtain ⟨s, rfl, hs⟩ := h
  refine ⟨_, writeString_map_char s, fun rest => ?_⟩
  have hliteral := literal_flatMap hs rest
  rw [List.cons_append, List.append_assoc]
  exact .string hliteral

/-! ## Lines -/

/-- The characters of a line break at a depth. -/
def breakChars (depth : Nat) : List Char :=
  '\n' :: List.replicate (2 * depth) ' '

theorem lineBreak_eq (depth : Nat) : lineBreak depth = (breakChars depth).map .char := by
  unfold lineBreak breakChars
  rw [List.map_cons, List.map_replicate]

/-- Spaces and line feeds count as white space. -/
structure Style.BreaksLines (S : Style) : Prop where
  space : S.isSpace ' ' = true
  line : S.isSpace '\n' = true

theorem Style.BreaksLines.blanks (hS : S.BreaksLines) (depth : Nat) (rest : List Char) :
    S.Blanks (breakChars depth ++ rest) rest := by
  have hspaces : ∀ n, S.Blanks (List.replicate n ' ' ++ rest) rest := by
    intro n
    induction n with
    | zero => exact .none
    | succ n ih => exact .more hS.space ih
  exact .more hS.line (hspaces _)

/-- **Items on lines of their own**, with commas between them. The last line break stands at the depth of the
container. -/
theorem items_flatMap (hS : S.BreaksLines) {α : Type} {item : List Char → α → List Char → Prop}
    {form : α → Content} {a : α} {as : List α} (h : ∀ b ∈ a :: as, Shows item (form b) b)
    (inside outside : Nat) (close : Char) :
    Shows (S.Items item close)
      (lineBreak inside ++ form a ++ (as.flatMap fun b => .char ',' :: (lineBreak inside ++ form b)) ++
        lineBreak outside ++ [.char close]) (a :: as) := by
  induction as generalizing a with
  | nil =>
    obtain ⟨s, hs, hitem⟩ := h a List.mem_cons_self
    refine ⟨breakChars inside ++ s ++ breakChars outside ++ [close], ?_, fun rest => ?_⟩
    · simp only [hs, lineBreak_eq, List.map_append, List.flatMap_nil, List.append_nil, List.map_cons,
        List.map_nil]
    · simp only [List.append_assoc]
      exact .last (hS.blanks _ _) (hitem _) (hS.blanks _ _)
  | cons b as ih =>
    obtain ⟨s, hs, hitem⟩ := h a List.mem_cons_self
    obtain ⟨t, ht, hrest⟩ := ih fun d hd => h d (List.mem_cons_of_mem _ hd)
    refine ⟨breakChars inside ++ s ++ ',' :: t, ?_, fun rest => ?_⟩
    · rw [List.map_append, List.map_append, List.map_cons, ← ht, ← lineBreak_eq, ← hs]
      simp only [List.flatMap_cons, List.append_assoc, List.cons_append]
    · simp only [List.append_assoc, List.cons_append]
      exact .more (hS.blanks _ _) (hitem _) .none (hrest rest)

/-! ## Values -/

theorem writeItems_eq (depth : Nat) (vs : List Json) :
    writeItems depth vs = vs.flatMap fun v => .char ',' :: (lineBreak depth ++ write depth v) := by
  induction vs with
  | nil => rfl
  | cons v vs ih =>
    rw [writeItems, ih, List.flatMap_cons]
    simp only [List.cons_append, List.append_assoc]

/-- A member as it stands on its line. -/
def writeMember (depth : Nat) (m : Content × Json) : Content :=
  writeString m.1 ++ Content.ofText ": " ++ write depth m.2

theorem writeMembers_eq (depth : Nat) (ms : List (Content × Json)) :
    writeMembers depth ms = ms.flatMap fun m => .char ',' :: (lineBreak depth ++ writeMember depth m) := by
  induction ms with
  | nil => rfl
  | cons m ms ih =>
    obtain ⟨name, v⟩ := m
    rw [writeMembers, ih, List.flatMap_cons]
    simp only [writeMember, List.cons_append, List.append_assoc]

theorem shows_writeMember (hS : S.BreaksLines) {value : List Char → Json → List Char → Prop} {depth : Nat}
    {m : Content × Json} (hn : S.Keeps m.1) (hv : Shows value (write depth m.2) m.2) :
    Shows (S.Member value) (writeMember depth m) m := by
  obtain ⟨s, hs, hkeeps⟩ := hn
  obtain ⟨t, ht, hvalue⟩ := hv
  refine ⟨'"' :: (s.flatMap writeChar ++ '"' :: ':' :: ' ' :: t), ?_, fun rest => ?_⟩
  · rw [writeMember, hs, writeString_map_char, ht]
    simp only [List.map_append, List.map_cons, List.map_nil, List.append_assoc, List.cons_append, List.nil_append]
    rfl
  · have hliteral := literal_flatMap hkeeps (':' :: ' ' :: (t ++ rest))
    rw [← hs] at hliteral
    simp only [List.cons_append, List.append_assoc]
    exact .value hliteral .none (.more hS.space .none) (hvalue rest)

/-- Values that are no containers stand at any depth. -/
theorem Shows.value {content : Content} {v : Json} (h : Shows S.Scalar content v) (depth : Nat) :
    Shows (S.Value depth) content v := by
  obtain ⟨s, hs, hscalar⟩ := h
  refine ⟨s, hs, fun rest => ?_⟩
  cases depth with
  | zero => exact hscalar rest
  | succ depth => exact .scalar (hscalar rest)

theorem shows_number {spelling : String}
    (h : IsNumber spelling.toList ∨ spelling ∈ ["NaN", "Infinity", "-Infinity"]) :
    Shows S.Scalar (Content.ofText spelling) (.number spelling) := by
  refine ⟨spelling.toList, rfl, fun rest => ?_⟩
  rcases h with h | h
  · have hnumber : S.Scalar (spelling.toList ++ rest) (.number (String.ofList spelling.toList)) rest := .number h
    rwa [String.ofList_toList] at hnumber
  · exact .constant h

/-- A container between its brackets. -/
theorem Shows.bracket {α : Type} {rule : List Char → α → List Char → Prop} {content : Content} {a : α}
    (h : Shows rule content a) (bracket : Char) {outer : List Char → Json → List Char → Prop} {v : Json}
    (houter : ∀ s rest, rule s a rest → outer (bracket :: s) v rest) :
    Shows outer (.char bracket :: content) v := by
  obtain ⟨s, hs, hrule⟩ := h
  exact ⟨bracket :: s, by rw [hs, List.map_cons], fun rest => houter _ _ (hrule rest)⟩

/-- **A value that is written is read as this value**, by induction on how it is built. -/
theorem value_write (hS : S.BreaksLines) {depth : Nat} {v : Json} (h : S.Expresses depth v) :
    ∀ indent, Shows (S.Value depth) (write indent v) v := by
  induction h with
  | null => exact fun indent => Shows.value ⟨"null".toList, rfl, fun _ => .null⟩ _
  | bool b =>
    intro indent
    cases b with
    | true => exact Shows.value ⟨"true".toList, rfl, fun _ => .true⟩ _
    | false => exact Shows.value ⟨"false".toList, rfl, fun _ => .false⟩ _
  | number h => exact fun indent => (shows_number h).value _
  | string h => exact fun indent => (shows_writeString h).value _
  | @array depth items _ ih =>
    intro indent
    cases items with
    | nil => exact ⟨"[]".toList, rfl, fun _ => .array (.empty .none)⟩
    | cons v vs =>
      have hitems := items_flatMap hS (fun u hu => ih u hu (indent + 1)) (indent + 1) indent ']'
      rw [← writeItems_eq] at hitems
      rw [write]
      simp only [List.cons_append]
      exact hitems.bracket '[' fun s rest h => .array (.items h)
  | @object depth members hn _ ih =>
    intro indent
    cases members with
    | nil => exact ⟨"\x7b\x7d".toList, rfl, fun _ => .object (.empty .none)⟩
    | cons m ms =>
      have hmembers := items_flatMap hS
        (fun u hu => shows_writeMember hS (hn u hu) (ih u hu (indent + 1))) (indent + 1) indent '\x7d'
      rw [← writeMembers_eq] at hmembers
      obtain ⟨name, v⟩ := m
      rw [write]
      simp only [writeMember, List.append_assoc, List.cons_append] at hmembers ⊢
      exact hmembers.bracket '\x7b' fun s rest h => .object (.items h)

/-- **The text of a value is a JSON text that has this value.** -/
theorem text_render (hS : S.BreaksLines) {v : Json} {depth : Nat} (h : S.Expresses depth v) :
    ∃ s : List Char, render v = s.map .char ∧ S.Text depth s v := by
  obtain ⟨s, hs, hvalue⟩ := value_write hS h 0
  refine ⟨s, hs, s, [], .none, ?_, .none⟩
  have hwhole := hvalue []
  rwa [List.append_nil] at hwhole

end Json

end Demotion
