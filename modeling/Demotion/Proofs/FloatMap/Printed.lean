import Demotion.Proofs.FloatMap.Document
import Demotion.Proofs.Json.Writing

/-!
# Records that are printed and read again

Records can be printed as a JSON array and read as a float map. Mending does nothing to such a text, whatever
stands in its strings: quotes, backslashes, and words that would be mended elsewhere. Only no-break spaces must
not stand in them, because they are read as spaces.

* `lookup_members`: the fields of a record in its JSON object.
* `readEntry_toJson`: a record is what its JSON object is read as.
* `document_printed`: a printed array of records is a float map that has this array as its value.
* `parse_printed`: **printed records are read back**, all of them, in order and without a problem.
-/

namespace Demotion.FloatMap

open Json (Style)

/-! ## The object of a record -/

/-- The fields of a record by name. One that is not set has no value. -/
def Record.fields (r : Record) : List (String × Option Json) :=
  [("value", some (.string r.value)), ("location", some (.string r.location)), ("safe", some (.bool r.safe)),
    ("reason", r.reason.map .string), ("downcast", r.downcast.map .string), ("error", r.error.map .string),
    ("mode", r.mode.map .string)]

/-- The members that fields make: those that have a value. -/
def membersOf (fields : List (String × Option Json)) : List (String × Json) :=
  fields.filterMap fun f => f.2.map (f.1, ·)

theorem toJson_eq (r : Record) : r.toJson = .record (membersOf r.fields) := by
  unfold Record.toJson Record.fields membersOf
  cases r.reason <;> cases r.downcast <;> cases r.error <;> cases r.mode <;> rfl

theorem mem_membersOf {fields : List (String × Option Json)} {m : String × Json} :
    m ∈ membersOf fields ↔ (m.1, some m.2) ∈ fields := by
  simp only [membersOf, List.mem_filterMap, Option.map_eq_some_iff]
  constructor
  · rintro ⟨f, hf, v, hv, rfl⟩
    rwa [← hv]
  · intro h
    exact ⟨_, h, m.2, rfl, rfl⟩

/-- A name that no field has is the name of no member. -/
theorem find?_membersOf_eq_none {fields : List (String × Option Json)} {name : String}
    (h : name ∉ fields.map (·.1)) : (membersOf fields).reverse.find? (fun m => m.1 = name) = none := by
  rw [List.find?_eq_none]
  intro m hm hname
  rw [List.mem_reverse, mem_membersOf] at hm
  exact h (List.mem_map.2 ⟨_, hm, of_decide_eq_true hname⟩)

/-- **The member of a name is the field of that name**, where every name stands once. -/
theorem lookup_members {fields : List (String × Option Json)} (h : (fields.map (·.1)).Nodup) (name : String) :
    Json.lookup ((membersOf fields).map fun m => (Content.ofText m.1, m.2)) name =
      (fields.find? fun f => f.1 = name).bind (·.2) := by
  rw [Json.lookup_record]
  induction fields with
  | nil => rfl
  | cons f fields ih =>
    obtain ⟨key, o⟩ := f
    rw [List.map_cons, List.nodup_cons] at h
    have hsplit :
        (membersOf ((key, o) :: fields)).reverse = (membersOf fields).reverse ++ (o.map (key, ·)).toList := by
      unfold membersOf
      rw [List.filterMap_cons]
      cases o <;> simp
    rw [hsplit, List.find?_append, List.find?_cons]
    by_cases hname : key = name
    · rw [find?_membersOf_eq_none (hname ▸ h.1)]
      cases o <;> simp [hname]
    · rw [decide_eq_false hname, ← ih h.2]
      cases o <;> simp [hname]

theorem lookup_fields (r : Record) (name : String) :
    Json.lookup ((membersOf r.fields).map fun m => (Content.ofText m.1, m.2)) name =
      (r.fields.find? fun f => f.1 = name).bind (·.2) :=
  lookup_members (by simp only [Record.fields, List.map_cons, List.map_nil]; decide) name

/-- A field that may be missing is read as it was set. -/
theorem optional_asText (o : Option Content) :
    optional Field.asText (o.map (Field.spelled ∘ Json.string)) = .ok o := by
  cases o <;> rfl

/-- **A record is what its object is read as.** -/
theorem readEntry_toJson (r : Record) : readEntry r.toJson = .ok r := by
  have hmembers : Record.ofMembers Field.spelled ((membersOf r.fields).map fun m => (Content.ofText m.1, m.2)) =
      .ok r := by
    unfold Record.ofMembers Record.ofFields
    simp only [lookup_fields]
    simp [Record.fields, optional_asText, required, Field.spelled, Field.asText, Field.asBool]
  rw [toJson_eq]
  unfold readEntry Json.record
  simp only [hmembers]

/-! ## Printed records -/

/-- A text without no-break spaces. -/
def IsPlainText (content : Content) : Prop :=
  ∃ s : String, content = Content.ofText s ∧ '\u00A0' ∉ s.toList

/-- The texts of a record, as far as they are set. -/
def Record.texts (r : Record) : List Content :=
  r.value :: r.location :: [r.reason, r.downcast, r.error, r.mode].filterMap id

/-- The text of records that are printed as an array. -/
def printed (records : List Record) : Content :=
  (Json.array (records.map Record.toJson)).render

theorem breaksLines_style : style.BreaksLines := ⟨by decide, by decide⟩

theorem keeps_of_isPlainText {content : Content} (h : IsPlainText content) : style.Keeps content := by
  obtain ⟨s, rfl, hs⟩ := h
  refine ⟨s.toList, rfl, fun c hc => if_neg ?_⟩
  rintro rfl
  exact hs hc

theorem keeps_name {r : Record} {name : String} (h : name ∈ r.fields.map (·.1)) :
    style.Keeps (Content.ofText name) := by
  have hnames : ∀ name ∈ ["value", "location", "safe", "reason", "downcast", "error", "mode"],
      '\u00A0' ∉ name.toList := by decide
  exact keeps_of_isPlainText ⟨name, rfl, hnames name h⟩

/-- The value of a field is a truth value or one of the texts. -/
theorem value_of_mem_fields {r : Record} {name : String} {v : Json} (h : (name, some v) ∈ r.fields) :
    (∃ b, v = .bool b) ∨ ∃ content ∈ r.texts, v = .string content := by
  simp only [Record.fields, Record.texts, List.mem_cons, List.not_mem_nil, or_false, Prod.mk.injEq,
    Option.some.injEq, List.mem_filterMap, id_eq] at h ⊢
  rcases h with ⟨-, rfl⟩ | ⟨-, rfl⟩ | ⟨-, rfl⟩ | ⟨-, h⟩ | ⟨-, h⟩ | ⟨-, h⟩ | ⟨-, h⟩
  · exact Or.inr ⟨_, Or.inl rfl, rfl⟩
  · exact Or.inr ⟨_, Or.inr (Or.inl rfl), rfl⟩
  · exact Or.inl ⟨_, rfl⟩
  all_goals
    obtain ⟨content, hcontent, rfl⟩ := Option.map_eq_some_iff.1 h.symm
    exact Or.inr ⟨content, by simp [hcontent], rfl⟩

theorem expresses_toJson {r : Record} (h : ∀ content ∈ r.texts, IsPlainText content) (depth : Nat) :
    style.Expresses (depth + 1) r.toJson := by
  rw [toJson_eq]
  have hmember : ∀ m ∈ membersOf r.fields, style.Keeps (Content.ofText m.1) ∧ style.Expresses depth m.2 := by
    intro m hm
    rw [mem_membersOf] at hm
    refine ⟨keeps_name (List.mem_map_of_mem hm), ?_⟩
    rcases value_of_mem_fields hm with ⟨b, hb⟩ | ⟨content, hcontent, hv⟩
    · rw [hb]
      exact .bool b
    · rw [hv]
      exact .string (keeps_of_isPlainText (h content hcontent))
  refine .object ?_ ?_
  · intro m hm
    obtain ⟨n, hn, rfl⟩ := List.mem_map.1 hm
    exact (hmember n hn).1
  · intro m hm
    obtain ⟨n, hn, rfl⟩ := List.mem_map.1 hm
    exact (hmember n hn).2

/-- A printed array of records is a float map that has this array as its value. Its objects stand in the array and
hold no containers. -/
theorem document_printed {records : List Record} (h : ∀ r ∈ records, ∀ content ∈ r.texts, IsPlainText content)
    (depth : Nat) :
    ∃ text : List Char, printed records = text.map .char ∧
      Document (depth + 2) text (.array (records.map Record.toJson)) := by
  have hexpresses : style.Expresses (depth + 2) (.array (records.map Record.toJson)) := by
    refine .array fun v hv => ?_
    obtain ⟨r, hr, rfl⟩ := List.mem_map.1 hv
    exact expresses_toJson (h r hr) depth
  exact Json.text_render breaksLines_style hexpresses

theorem skippedFrom_toJson (records : List Record) (index : Nat) :
    skippedFrom index (records.map Record.toJson) = [] := by
  induction records generalizing index with
  | nil => rfl
  | cons r records ih => rw [List.map_cons, skippedFrom, readEntry_toJson, ih]

/-- All entries are records, so that none is skipped. -/
theorem ofJson_printed (records : List Record) :
    ofJson (.array (records.map Record.toJson)) = ⟨records, none⟩ := by
  have hrecords : recordsOf (records.map Record.toJson) = records := by
    unfold recordsOf
    rw [List.filterMap_map]
    simp only [Function.comp_def, readEntry_toJson]
    exact List.filterMap_some
  simp only [ofJson, hrecords, skippedFrom_toJson, List.isEmpty_nil, if_true]

/-- **Printed records are read back.** Whatever texts the records have, as long as there are no no-break spaces in
them: the printed array is a text, and as a float map it has these records in this order and no problem, where
containers may stand two deep. -/
theorem parse_printed {depth : Nat} (hdepth : 2 ≤ depth) {records : List Record}
    (h : ∀ r ∈ records, ∀ content ∈ r.texts, IsPlainText content) :
    ∃ text : List Char, CodePoint.text? (printed records) = some text ∧
      parse depth (String.ofList text) = .ok ⟨records, none⟩ := by
  obtain ⟨inner, rfl⟩ := Nat.exists_eq_add_of_le' hdepth
  obtain ⟨text, htext, hdocument⟩ := document_printed h inner
  refine ⟨text, by rw [htext, CodePoint.text?_map_char], ?_⟩
  have hread :
      Json.read (inner + 2) none (sanitize (String.ofList text)) = .ok (.array (records.map Record.toJson)) := by
    unfold sanitize
    rw [Json.read_iff, String.toList_ofList, String.toList_ofList, text_repair_iff]
    exact hdocument
  unfold parse
  rw [hread]
  simp only [ofJson_printed]

/-- A record whose texts look like the end of a string, a bare word and an escape. -/
def treacherous : Record where
  value := Content.ofText "\": inf,"
  location := Content.ofText "\\\n: nan\x7d"
  safe := false
  reason := none
  downcast := some (Content.ofText "\x01\\u00e9é")
  error := some (Content.ofText "")
  mode := none

theorem parse_printed_treacherous :
    (∀ content ∈ treacherous.texts, IsPlainText content) ∧
      ∃ text : List Char, CodePoint.text? (printed [treacherous, treacherous]) = some text ∧
        parse 2 (String.ofList text) = .ok ⟨[treacherous, treacherous], none⟩ := by
  have hplain : ∀ content ∈ treacherous.texts, IsPlainText content := by
    intro content h
    simp only [Record.texts, treacherous, List.filterMap_cons, id_eq, List.filterMap_nil, List.mem_cons,
      List.not_mem_nil, or_false] at h
    rcases h with rfl | rfl | rfl | rfl
    · exact ⟨_, rfl, by decide⟩
    · exact ⟨_, rfl, by decide⟩
    · exact ⟨_, rfl, by decide⟩
    · exact ⟨_, rfl, by decide⟩
  refine ⟨hplain, parse_printed (Nat.le_refl 2) fun r hr => ?_⟩
  simp only [List.mem_cons, List.not_mem_nil, or_false, or_self] at hr
  rw [hr]
  exact hplain

end Demotion.FloatMap
