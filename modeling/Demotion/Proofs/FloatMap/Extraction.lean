import Demotion.FloatMap.Basic
import Demotion.Proofs.Text.Content

/-!
# Which entries of a float map are records

An entry is a record if it is an object whose fields are of the right kinds. This is told by the members of the
object; that the reader takes exactly these entries, and says of the others where they stand, is proved here.

* `Spells`, `Flags`: the text and the truth value that a member gives to a field.
* `readEntry_eq_ok`: an entry is read as a record exactly if its members give the fields of the record.
* `mem_numbered`, `numbered_increasing`: what is picked from the entries, each with its place.
* `parse_extracts`: **the records of an array are those of exactly the entries that have one, in order, and all
  other entries are counted and listed.** A string may have halves of surrogate pairs in it
  (`parse_takes_halves`).
-/

namespace Demotion.FloatMap

/-! ## What a record needs -/

/-- What an object has under a name. Of several members of that name the last counts. -/
inductive Holds (members : List (Content × Json)) (name : String) : Option Json → Prop where
  | absent (h : ∀ m ∈ members, m.1 ≠ Content.ofText name) : Holds members name none
  | last {front back : List (Content × Json)} {v : Json}
      (hm : members = front ++ (Content.ofText name, v) :: back) (h : ∀ m ∈ back, m.1 ≠ Content.ofText name) :
      Holds members name (some v)

/-- The text of a scalar: of a string that is `fit` its content, of a number its spelling. -/
inductive Spells (fit : Content → Prop) : Json → Content → Prop where
  | string {content : Content} (h : fit content) : Spells fit (.string content) content
  | number {spelling : String} : Spells fit (.number spelling) (Content.ofText spelling)
  | true : Spells fit (.bool .true) (Content.ofText "true")
  | false : Spells fit (.bool .false) (Content.ofText "false")

/-- The text of a field that may be absent or null. -/
inductive MaySpell (fit : Content → Prop) : Option Json → Option Content → Prop where
  | absent : MaySpell fit none none
  | null : MaySpell fit (some .null) none
  | text {v : Json} {content : Content} (h : Spells fit v content) : MaySpell fit (some v) (some content)

/-- The words for truth values. -/
def flagWords : List (String × Bool) :=
  [("0", false), ("f", false), ("n", false), ("no", false), ("off", false), ("false", false),
    ("1", true), ("t", true), ("y", true), ("on", true), ("yes", true), ("true", true)]

/-- A word for a truth value, in capital or small letters. -/
def IsFlagWord (s : List Char) (b : Bool) : Prop :=
  ∃ word, (word, b) ∈ flagWords ∧ s.map Char.toLower = word.toList

/-- The truth value of a scalar: itself, or that of the word that it spells. -/
inductive Flags : Json → Bool → Prop where
  | bool {b : Bool} : Flags (.bool b) b
  | string {s : List Char} {b : Bool} (h : IsFlagWord s b) : Flags (.string (s.map .char)) b
  | number {s : List Char} {b : Bool} (h : IsFlagWord s b) : Flags (.number (String.ofList s)) b

/-- The members of an object give the fields of a record. -/
structure IsRecord (fit : Content → Prop) (members : List (Content × Json)) (r : Record) : Prop where
  value : ∃ v, Holds members "value" (some v) ∧ Spells fit v r.value
  location : ∃ v, Holds members "location" (some v) ∧ Spells fit v r.location
  safe : ∃ v, Holds members "safe" (some v) ∧ Flags v r.safe
  reason : ∃ o, Holds members "reason" o ∧ MaySpell fit o r.reason
  downcast : ∃ o, Holds members "downcast" o ∧ MaySpell fit o r.downcast
  error : ∃ o, Holds members "error" o ∧ MaySpell fit o r.error
  mode : ∃ o, Holds members "mode" o ∧ MaySpell fit o r.mode

/-- An entry and its record. -/
inductive RecordOf (fit : Content → Prop) : Json → Record → Prop where
  | object {members : List (Content × Json)} {r : Record} (h : IsRecord fit members r) :
      RecordOf fit (.object members) r

/-! ## Fields -/

theorem holds_iff {members : List (Content × Json)} {name : String} {o : Option Json} :
    Holds members name o ↔ Json.lookup members name = o := by
  unfold Json.lookup
  constructor
  · rintro (h | ⟨rfl, h⟩)
    · rw [List.find?_eq_none.2]
      · rfl
      · intro m hm
        simpa using h m (List.mem_reverse.1 hm)
    · rw [List.reverse_append, List.reverse_cons, List.append_assoc, List.find?_append, List.find?_eq_none.2]
      · simp
      · intro m hm
        simpa using h m (List.mem_reverse.1 hm)
  · rintro rfl
    cases hfind : members.reverse.find? fun m => m.1 = Content.ofText name with
    | none =>
      refine .absent fun m hm => ?_
      simpa using List.find?_eq_none.1 hfind m (List.mem_reverse.2 hm)
    | some m =>
      obtain ⟨hname, back, front, hm, hback⟩ := List.find?_eq_some_iff_append.1 hfind
      have hmembers : members = front.reverse ++ (Content.ofText name, m.2) :: back.reverse := by
        have hrev := congrArg List.reverse hm
        rw [List.reverse_reverse, List.reverse_append, List.reverse_cons, List.append_assoc] at hrev
        rw [← of_decide_eq_true hname]
        exact hrev
      refine .last hmembers fun d hd => ?_
      simpa using hback d (List.mem_reverse.1 hd)

theorem spelled_asText {v : Json} {content : Content} :
    (Field.spelled v).asText = .ok content ↔ Spells (fun _ => True) v content := by
  constructor
  · intro h
    cases v with
    | null => cases h
    | bool b => cases b <;> (cases h; constructor)
    | number spelling => cases h; exact .number
    | string content => cases h; exact .string trivial
    | array items => cases h
    | object members => cases h
  · intro h
    cases h <;> rfl

theorem required_asText {o : Option Json} {content : Content} :
    required Field.asText (o.map Field.spelled) = .ok content ↔
      ∃ v, o = some v ∧ Spells (fun _ => True) v content := by
  cases o with
  | none => simp [required]
  | some v => simpa [required] using spelled_asText

theorem optional_spelled {o : Option Json} {text : Option Content} :
    optional Field.asText (o.map Field.spelled) = .ok text ↔ MaySpell (fun _ => True) o text := by
  -- a value other than null must have a text
  have hread : ∀ {v : Json}, v ≠ .null → (optional Field.asText (some (Field.spelled v)) = .ok text ↔
      ∃ content, text = some content ∧ Spells (fun _ => True) v content) := by
    intro v hv
    have hsome : optional Field.asText (some (Field.spelled v)) = (Field.spelled v).asText.map some := by
      cases v with
      | null => exact absurd rfl hv
      | _ => rfl
    rw [hsome]
    cases htext : (Field.spelled v).asText with
    | error fault => simp [Except.map, ← spelled_asText, htext]
    | ok content => simp [Except.map, ← spelled_asText, htext, eq_comm]
  constructor
  · intro h
    cases o with
    | none => cases h; exact .absent
    | some v =>
      by_cases hv : v = .null
      · subst hv
        cases h
        exact .null
      · obtain ⟨content, rfl, hspells⟩ := (hread hv).1 h
        exact .text hspells
  · intro h
    cases h with
    | absent => rfl
    | null => rfl
    | text h => cases h <;> rfl

theorem flagWords_eq :
    flagWords = Field.falseWords.map (·, false) ++ Field.trueWords.map (·, true) := rfl

theorem boolOfWord_eq_ok {s : List Char} {b : Bool} : Field.boolOfWord s = .ok b ↔ IsFlagWord s b := by
  have hword : IsFlagWord s b ↔ (String.ofList (s.map Char.toLower), b) ∈ flagWords := by
    constructor
    · rintro ⟨word, hmem, hs⟩
      rwa [hs, String.ofList_toList]
    · intro hmem
      exact ⟨_, hmem, String.toList_ofList.symm⟩
  have hdisjoint : ∀ word ∈ Field.falseWords, word ∉ Field.trueWords := by decide
  rw [hword, flagWords_eq, List.mem_append, List.mem_map, List.mem_map]
  unfold Field.boolOfWord
  dsimp only
  generalize String.ofList (s.map Char.toLower) = word
  by_cases hfalse : word ∈ Field.falseWords
  · rw [if_pos (List.contains_iff_mem.2 hfalse)]
    have htrue := hdisjoint word hfalse
    simp [hfalse, htrue]
  · rw [if_neg (by rwa [List.contains_iff_mem])]
    by_cases htrue : word ∈ Field.trueWords
    · rw [if_pos (List.contains_iff_mem.2 htrue)]
      simp [hfalse, htrue]
    · rw [if_neg (by rwa [List.contains_iff_mem])]
      simp [hfalse, htrue]

theorem spelled_asBool {v : Json} {b : Bool} : (Field.spelled v).asBool = .ok b ↔ Flags v b := by
  -- a text gives a truth value if it is a word for one
  have htext : ∀ {content : Content}, (Field.text content).asBool = .ok b ↔
      ∃ s, content = s.map .char ∧ IsFlagWord s b := by
    intro content
    unfold Field.asBool
    cases hs : CodePoint.text? content with
    | none => simp [← CodePoint.text?_eq_some, hs]
    | some s => simp [← CodePoint.text?_eq_some, hs, boolOfWord_eq_ok]
  constructor
  · intro h
    cases v with
    | null => cases h
    | bool b => cases h; exact .bool
    | number spelling =>
      obtain ⟨s, hs, hflag⟩ := htext.1 h
      have hspelling : spelling.toList = s :=
        Option.some.inj ((CodePoint.text?_map_char _).symm.trans (CodePoint.text?_eq_some.2 hs))
      obtain rfl : spelling = String.ofList s := by rw [← hspelling, String.ofList_toList]
      exact .number hflag
    | string content =>
      obtain ⟨s, rfl, hflag⟩ := htext.1 h
      exact .string hflag
    | array items => cases h
    | object members => cases h
  · intro h
    cases h with
    | bool => rfl
    | @string s _ hflag => exact htext.2 ⟨s, rfl, hflag⟩
    | @number s _ hflag => exact htext.2 ⟨s, by rw [Content.ofText, String.toList_ofList], hflag⟩

theorem required_asBool {o : Option Json} {b : Bool} :
    required Field.asBool (o.map Field.spelled) = .ok b ↔ ∃ v, o = some v ∧ Flags v b := by
  cases o with
  | none => simp [required]
  | some v => simpa [required] using spelled_asBool

/-! ## Entries -/

theorem ofFields_eq_ok {field : String → Option Field} {r : Record} :
    Record.ofFields field = .ok r ↔
      required Field.asText (field "value") = .ok r.value ∧
        required Field.asText (field "location") = .ok r.location ∧
        required Field.asBool (field "safe") = .ok r.safe ∧
        optional Field.asText (field "reason") = .ok r.reason ∧
        optional Field.asText (field "downcast") = .ok r.downcast ∧
        optional Field.asText (field "error") = .ok r.error ∧
        optional Field.asText (field "mode") = .ok r.mode := by
  unfold Record.ofFields
  dsimp only
  constructor
  · intro h
    split at h
    · cases h
      exact ⟨‹_›, ‹_›, ‹_›, ‹_›, ‹_›, ‹_›, ‹_›⟩
    · cases h
  · rintro ⟨h₁, h₂, h₃, h₄, h₅, h₆, h₇⟩
    rw [h₁, h₂, h₃, h₄, h₅, h₆, h₇]

theorem ofMembers_eq_ok {members : List (Content × Json)} {r : Record} :
    Record.ofMembers Field.spelled members = .ok r ↔ IsRecord (fun _ => True) members r := by
  have hsome : ∀ {name : String} {P : Json → Prop},
      (∃ v, Json.lookup members name = some v ∧ P v) ↔ ∃ v, Holds members name (some v) ∧ P v := by
    intro name P
    simp only [holds_iff]
  have hany : ∀ {name : String} {P : Option Json → Prop},
      P (Json.lookup members name) ↔ ∃ o, Holds members name o ∧ P o := by
    intro name P
    simp only [holds_iff, exists_eq_left']
  unfold Record.ofMembers
  rw [ofFields_eq_ok, required_asText, required_asText, required_asBool, optional_spelled, optional_spelled,
    optional_spelled, optional_spelled, hsome, hsome, hsome]
  constructor
  · rintro ⟨h₁, h₂, h₃, h₄, h₅, h₆, h₇⟩
    exact ⟨h₁, h₂, h₃, hany.1 h₄, hany.1 h₅, hany.1 h₆, hany.1 h₇⟩
  · rintro ⟨h₁, h₂, h₃, h₄, h₅, h₆, h₇⟩
    exact ⟨h₁, h₂, h₃, hany.2 h₄, hany.2 h₅, hany.2 h₆, hany.2 h₇⟩

/-- **An entry is read as a record exactly if its members give the fields of the record.** -/
theorem readEntry_eq_ok {v : Json} {r : Record} : readEntry v = .ok r ↔ RecordOf (fun _ => True) v r := by
  constructor
  · intro h
    cases v with
    | object members =>
      refine .object (ofMembers_eq_ok.1 ?_)
      unfold readEntry at h
      dsimp only at h
      split at h
      · rename_i r' hr
        cases h
        exact hr
      · cases h
    | _ => cases h
  · rintro ⟨h⟩
    unfold readEntry
    dsimp only
    rw [ofMembers_eq_ok.2 h]

/-! ## Places in an array -/

/-- What `pick` finds in the entries of an array, with their places from `n` on. -/
def numberedFrom {α : Type} (n : Nat) (pick : Json → Option α) (entries : List Json) : List (Nat × α) :=
  (entries.zipIdx n).filterMap fun e => (pick e.1).map (e.2, ·)

section Numbered

variable {α : Type} {pick : Json → Option α} {entries : List Json}

theorem mem_numbered {i : Nat} {a : α} :
    (i, a) ∈ numberedFrom 0 pick entries ↔ ∃ v, entries[i]? = some v ∧ pick v = some a := by
  unfold numberedFrom
  rw [List.mem_filterMap]
  constructor
  · rintro ⟨⟨v, k⟩, hv, hpick⟩
    obtain ⟨b, hb, heq⟩ := Option.map_eq_some_iff.1 hpick
    obtain ⟨rfl, rfl⟩ := Prod.mk.inj heq
    exact ⟨v, List.mem_zipIdx_iff_getElem?.1 hv, hb⟩
  · rintro ⟨v, hv, hpick⟩
    exact ⟨(v, i), List.mem_zipIdx_iff_getElem?.2 hv, by rw [hpick]; rfl⟩

/-- The places increase. -/
theorem numbered_increasing (n : Nat) : ((numberedFrom n pick entries).map Prod.fst).Pairwise (· < ·) := by
  have hall : (entries.zipIdx n).Pairwise fun e e' => e.2 < e'.2 := by
    rw [← List.pairwise_map, List.zipIdx_map_snd]
    exact List.pairwise_lt_range'
  unfold numberedFrom
  rw [List.pairwise_map]
  refine hall.filterMap _ ?_
  intro e e' hlt a ha a' ha'
  obtain ⟨b, -, rfl⟩ := Option.map_eq_some_iff.1 ha
  obtain ⟨b', -, rfl⟩ := Option.map_eq_some_iff.1 ha'
  exact hlt

theorem map_snd_numbered (n : Nat) : (numberedFrom n pick entries).map Prod.snd = entries.filterMap pick := by
  have hpick : ∀ e : Json × Nat, ((pick e.1).map (e.2, ·)).map Prod.snd = pick e.1 := by
    intro e
    cases pick e.1 <;> rfl
  have hfst : entries.filterMap pick = (entries.zipIdx n).filterMap (pick ∘ Prod.fst) := by
    rw [← List.filterMap_map, List.zipIdx_map_fst]
  unfold numberedFrom
  rw [List.map_filterMap, hfst]
  simp only [hpick, Function.comp_def]

end Numbered

/-! ## Entries that are skipped -/

/-- What is wrong with an entry, if anything. -/
def fault? (v : Json) : Option EntryFault :=
  match readEntry v with
  | .ok _ => none
  | .error fault => some fault

theorem fault?_isSome {v : Json} : (∃ fault, fault? v = some fault) ↔ ¬∃ r, RecordOf (fun _ => True) v r := by
  simp only [← readEntry_eq_ok]
  unfold fault?
  cases readEntry v <;> simp

theorem skippedFrom_eq (n : Nat) (entries : List Json) :
    skippedFrom n entries = numberedFrom n fault? entries := by
  induction entries generalizing n with
  | nil => rfl
  | cons v entries ih =>
    unfold numberedFrom at ih ⊢
    rw [skippedFrom, List.zipIdx_cons, List.filterMap_cons, ih]
    unfold fault?
    cases readEntry v <;> rfl

/-- Every entry is a record or skipped. -/
theorem length_recordsOf (n : Nat) (entries : List Json) :
    (recordsOf entries).length + (skippedFrom n entries).length = entries.length := by
  induction entries generalizing n with
  | nil => rfl
  | cons v entries ih =>
    have hrest := ih (n + 1)
    have hrecords : recordsOf (v :: entries) = (readEntry v).toOption.toList ++ recordsOf entries := by
      unfold recordsOf
      rw [List.filterMap_cons]
      cases readEntry v <;> rfl
    rw [skippedFrom, hrecords, List.length_append, List.length_cons]
    cases readEntry v with
    | ok r =>
      show 1 + (recordsOf entries).length + (skippedFrom (n + 1) entries).length = entries.length + 1
      omega
    | error fault =>
      show 0 + (recordsOf entries).length + ((skippedFrom (n + 1) entries).length + 1) = entries.length + 1
      omega

/-- Why an entry is skipped, in words. -/
inductive IsReason : Json → String → Prop where
  | notObject {v : Json} (h : ∀ members, v ≠ .object members) : IsReason v "not an object"
  | fields {members : List (Content × Json)} {count : Nat} (hpos : 0 < count) (hle : count ≤ 7) :
      IsReason (.object members) (toString count ++ " validation error(s)")

/-- The words for what is wrong with an entry. -/
def EntryFault.reason : EntryFault → String
  | .notObject => "not an object"
  | .fields count => toString count ++ " validation error(s)"

theorem faultOf_length {α : Type} (name : String) (e : Except FieldFault α) : (faultOf name e).length ≤ 1 := by
  cases e <;> simp [faultOf]

theorem faultOf_eq_nil {α : Type} {name : String} {e : Except FieldFault α} (h : faultOf name e = []) :
    ∃ a, e = .ok a := by
  cases e with
  | error fault => cases h
  | ok a => exact ⟨a, rfl⟩

/-- Each of the seven fields has at most one fault, and a record that is refused has one. -/
theorem length_of_ofFields {field : String → Option Field} {faults : FieldFaults}
    (h : Record.ofFields field = .error faults) : 0 < faults.length ∧ faults.length ≤ 7 := by
  unfold Record.ofFields at h
  dsimp only at h
  split at h
  · cases h
  · rename_i hrefused
    cases h
    constructor
    · by_contra hzero
      have hnil := List.length_eq_zero_iff.1 (Nat.eq_zero_of_not_pos hzero)
      simp only [List.append_eq_nil_iff, and_assoc] at hnil
      obtain ⟨h₁, h₂, h₃, h₄, h₅, h₆, h₇⟩ := hnil
      obtain ⟨value, hvalue⟩ := faultOf_eq_nil h₁
      obtain ⟨location, hlocation⟩ := faultOf_eq_nil h₂
      obtain ⟨safe, hsafe⟩ := faultOf_eq_nil h₃
      obtain ⟨reason, hreason⟩ := faultOf_eq_nil h₄
      obtain ⟨downcast, hdowncast⟩ := faultOf_eq_nil h₅
      obtain ⟨error, herror⟩ := faultOf_eq_nil h₆
      obtain ⟨mode, hmode⟩ := faultOf_eq_nil h₇
      exact hrefused _ _ _ _ _ _ _ hvalue hlocation hsafe hreason hdowncast herror hmode
    · have h₁ := faultOf_length "value" (required Field.asText (field "value"))
      have h₂ := faultOf_length "location" (required Field.asText (field "location"))
      have h₃ := faultOf_length "safe" (required Field.asBool (field "safe"))
      have h₄ := faultOf_length "reason" (optional Field.asText (field "reason"))
      have h₅ := faultOf_length "downcast" (optional Field.asText (field "downcast"))
      have h₆ := faultOf_length "error" (optional Field.asText (field "error"))
      have h₇ := faultOf_length "mode" (optional Field.asText (field "mode"))
      simp only [List.length_append]
      omega

theorem isReason_of_fault? {v : Json} {fault : EntryFault} (h : fault? v = some fault) :
    IsReason v fault.reason := by
  unfold fault? at h
  cases v with
  | object members =>
    unfold readEntry at h
    dsimp only at h
    cases hr : Record.ofMembers Field.spelled members with
    | ok r => rw [hr] at h; cases h
    | error faults =>
      rw [hr] at h
      cases h
      obtain ⟨hpos, hle⟩ := length_of_ofFields hr
      exact .fields hpos hle
  | _ => cases h; exact .notObject nofun

/-- The words for entries that were skipped, each with its place and the reason. -/
def skipMessage (others : List (Nat × String)) : String :=
  "Skipped " ++ toString others.length ++ " invalid float map " ++
    (if others.length = 1 then "entry" else "entries") ++ ": " ++
    "; ".intercalate (others.map fun e => "#" ++ toString e.1 ++ ": " ++ e.2)

theorem message_skipped (skipped : List (Nat × EntryFault)) :
    (Problem.skipped skipped).message = skipMessage (skipped.map fun e => (e.1, e.2.reason)) := by
  have hentry : ∀ e : Nat × EntryFault, entryMessage e = "#" ++ toString e.1 ++ ": " ++ e.2.reason := by
    rintro ⟨i, fault⟩
    cases fault with
    | notObject =>
      show "#" ++ toString i ++ ": not an object" = "#" ++ toString i ++ ": " ++ "not an object"
      simp only [String.append_assoc]
      rfl
    | fields count =>
      show "#" ++ toString i ++ ": " ++ toString count ++ " validation error(s)" =
        "#" ++ toString i ++ ": " ++ (toString count ++ " validation error(s)")
      rw [String.append_assoc]
  unfold Problem.message skipMessage
  rw [List.map_map, List.length_map]
  simp only [Function.comp_def, ← hentry]
  rfl

/-! ## Whole float maps -/

/-- What was found in the entries of an array, where `fit` says which strings may stand in a text field. -/
structure Extracts (fit : Content → Prop) (entries : List Json) (p : Parsed) : Prop where
  /-- The records are those of the entries that have one, in order and each once. -/
  records : ∃ placed : List (Nat × Record), placed.map Prod.snd = p.records ∧
    (placed.map Prod.fst).Pairwise (· < ·) ∧
    ∀ i r, (i, r) ∈ placed ↔ ∃ v, entries[i]? = some v ∧ RecordOf fit v r
  /-- There is no problem exactly if every entry has a record. -/
  complete : p.problem = none ↔ ∀ v ∈ entries, ∃ r, RecordOf fit v r
  /-- Otherwise the other entries are counted and listed in order, each once and with a reason. -/
  others : ∀ problem, p.problem = some problem → ∃ others : List (Nat × String),
    (others.map Prod.fst).Pairwise (· < ·) ∧
    (∀ i, i ∈ others.map Prod.fst ↔ ∃ v, entries[i]? = some v ∧ ¬∃ r, RecordOf fit v r) ∧
    (∀ i reason, (i, reason) ∈ others → ∃ v, entries[i]? = some v ∧ IsReason v reason) ∧
    others.length = entries.length - p.records.length ∧ problem.message = skipMessage others

theorem ofJson_extracts (entries : List Json) : Extracts (fun _ => True) entries (ofJson (.array entries)) where
  records := by
    refine ⟨numberedFrom 0 (fun v => (readEntry v).toOption) entries, map_snd_numbered 0,
      numbered_increasing 0, ?_⟩
    intro i r
    have htoOption : ∀ v, (readEntry v).toOption = some r ↔ RecordOf (fun _ => True) v r := by
      intro v
      rw [← readEntry_eq_ok]
      cases readEntry v <;> simp [Except.toOption]
    rw [mem_numbered]
    simp only [htoOption]
  complete := by
    have hproblem : (ofJson (.array entries)).problem = none ↔ numberedFrom 0 fault? entries = [] := by
      rw [← skippedFrom_eq]
      unfold ofJson
      dsimp only
      cases skippedFrom 0 entries <;> simp
    rw [hproblem, List.eq_nil_iff_forall_not_mem]
    constructor
    · intro hnone v hv
      obtain ⟨i, hi⟩ := List.mem_iff_getElem?.1 hv
      by_contra hrecord
      obtain ⟨fault, hfault⟩ := fault?_isSome.2 hrecord
      exact hnone (i, fault) (mem_numbered.2 ⟨v, hi, hfault⟩)
    · rintro hall ⟨i, fault⟩ hmem
      obtain ⟨v, hv, hfault⟩ := mem_numbered.1 hmem
      exact fault?_isSome.1 ⟨fault, hfault⟩ (hall v (List.mem_of_getElem? hv))
  others := by
    intro problem hproblem
    have hskipped : problem = .skipped (skippedFrom 0 entries) := by
      unfold ofJson at hproblem
      dsimp only at hproblem
      split at hproblem
      · cases hproblem
      · exact (Option.some.inj hproblem).symm
    have hplaces : ((skippedFrom 0 entries).map fun e => (e.1, e.2.reason)).map Prod.fst =
        (numberedFrom 0 fault? entries).map Prod.fst := by
      rw [List.map_map, skippedFrom_eq]
      rfl
    refine ⟨(skippedFrom 0 entries).map fun e => (e.1, e.2.reason), ?_, ?_, ?_, ?_, ?_⟩
    · rw [hplaces]
      exact numbered_increasing 0
    · intro i
      rw [hplaces, List.mem_map]
      simp only [← fault?_isSome]
      constructor
      · rintro ⟨⟨i, fault⟩, hmem, rfl⟩
        obtain ⟨v, hv, hfault⟩ := mem_numbered.1 hmem
        exact ⟨v, hv, fault, hfault⟩
      · rintro ⟨v, hv, fault, hfault⟩
        exact ⟨(i, fault), mem_numbered.2 ⟨v, hv, hfault⟩, rfl⟩
    · intro i reason hmem
      rw [skippedFrom_eq] at hmem
      obtain ⟨⟨k, fault⟩, hfault, heq⟩ := List.mem_map.1 hmem
      obtain ⟨rfl, rfl⟩ := Prod.mk.inj heq
      obtain ⟨v, hv, hv'⟩ := mem_numbered.1 hfault
      exact ⟨v, hv, isReason_of_fault? hv'⟩
    · have hlength := length_recordsOf 0 entries
      show (List.map _ (skippedFrom 0 entries)).length = entries.length - (recordsOf entries).length
      rw [List.length_map]
      omega
    · rw [hskipped, message_skipped]

/-- **The records of an array are those of exactly the entries that have one**, in order, and all other entries
are counted and listed. -/
theorem parse_extracts {depth : Nat} {raw : String} {entries : List Json}
    (h : Json.read depth none (sanitize raw) = .ok (.array entries)) :
    ∃ p, parse depth raw = .ok p ∧ Extracts (fun _ => True) entries p := by
  refine ⟨ofJson (.array entries), ?_, ofJson_extracts entries⟩
  unfold parse
  rw [h]

/-- Whether a text is read as an array. -/
def readsArray (depth : Nat) (raw : String) : Bool :=
  match Json.read depth none (sanitize raw) with
  | .ok (.array _) => true
  | _ => false

theorem exists_entries {depth : Nat} {raw : String} (h : readsArray depth raw = true) :
    ∃ entries, Json.read depth none (sanitize raw) = .ok (.array entries) := by
  unfold readsArray at h
  split at h
  · rename_i entries hentries
    exact ⟨entries, hentries⟩
  · cases h

/-- A float map with a record, a number, and an object that lacks two fields and has a wrong one. -/
def mixedMap : String :=
  "[\x7b\"value\":1.50,\"location\":true,\"safe\":0,\"safe\":\"Y\",\"error\":inf\x7d,7,\x7b\"safe\":1.0\x7d]"

/-- The record in it: the last of two members counts, and a bare word is read by its name. -/
def mixedRecord : Record where
  value := Content.ofText "1.50"
  location := Content.ofText "true"
  safe := true
  reason := none
  downcast := none
  error := some (Content.ofText "Infinity")
  mode := none

theorem parse_extracts_mixedMap :
    ∃ entries, Json.read 1000 none (sanitize mixedMap) = .ok (.array entries) ∧
      ∃ p, parse 1000 mixedMap = .ok p ∧ Extracts (fun _ => True) entries p ∧
        p.records = [mixedRecord] ∧
        p.problem.map Problem.message =
          some "Skipped 2 invalid float map entries: #1: not an object; #2: 3 validation error(s)" := by
  obtain ⟨entries, hentries⟩ : ∃ entries, Json.read 1000 none (sanitize mixedMap) = .ok (.array entries) :=
    exists_entries (by decide +kernel)
  obtain ⟨p, hp, hextracts⟩ := parse_extracts hentries
  have hvalue : (parse 1000 mixedMap).toOption.map (fun p => (p.records, p.problem.map Problem.message)) =
      some ([mixedRecord],
        some "Skipped 2 invalid float map entries: #1: not an object; #2: 3 validation error(s)") := by
    decide +kernel
  rw [hp] at hvalue
  obtain ⟨hrecords, hproblem⟩ := Prod.mk.inj (Option.some.inj hvalue)
  exact ⟨entries, hentries, p, hp, hextracts, hrecords, hproblem⟩

/-! ## Halves of surrogate pairs -/

/-- No half of a surrogate pair stands alone in a string. -/
def HasNoHalf (content : Content) : Prop := ∀ n, CodePoint.half n ∉ content

theorem hasNoHalf_of_spells {v : Json} {content : Content} (h : Spells HasNoHalf v content) :
    HasNoHalf content := by
  cases h with
  | string h => exact h
  | number => exact Content.half_not_mem_ofText _
  | true => exact Content.half_not_mem_ofText _
  | false => exact Content.half_not_mem_ofText _

/-- A float map with half of a surrogate pair in a value. -/
def halvedMap : String := "[\x7b\"value\":\"\\ud800\",\"location\":\"l\",\"safe\":true\x7d]"

/-- **A string may have halves of surrogate pairs in it**: the entry is a record all the same. -/
theorem parse_takes_halves :
    ∃ entries, Json.read 1000 none (sanitize halvedMap) = .ok (.array entries) ∧
      ¬∃ p, parse 1000 halvedMap = .ok p ∧ Extracts HasNoHalf entries p := by
  obtain ⟨entries, hentries⟩ : ∃ entries, Json.read 1000 none (sanitize halvedMap) = .ok (.array entries) :=
    exists_entries (by decide +kernel)
  refine ⟨entries, hentries, ?_⟩
  rintro ⟨p, hp, hextracts⟩
  have hvalue : (parse 1000 halvedMap).toOption.map (fun p => p.records) =
      some [⟨[.half 0xD800], Content.ofText "l", true, none, none, none, none⟩] := by
    decide +kernel
  rw [hp] at hvalue
  have hrecords : p.records = [⟨[.half 0xD800], Content.ofText "l", true, none, none, none, none⟩] :=
    Option.some.inj hvalue
  obtain ⟨placed, hplaced, -, hmem⟩ := hextracts.records
  rw [hrecords] at hplaced
  obtain ⟨⟨i, r⟩, hir, hr⟩ := List.mem_map.1 (hplaced ▸ List.mem_cons_self)
  obtain ⟨v, -, hrecord⟩ := (hmem i r).1 hir
  obtain ⟨h⟩ := hrecord
  obtain ⟨w, -, hspells⟩ := h.value
  have hhalf : r.value = [.half 0xD800] := congrArg Record.value hr
  exact hasNoHalf_of_spells hspells 0xD800 (hhalf ▸ List.mem_cons_self)

end Demotion.FloatMap
