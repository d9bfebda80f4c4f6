import Demotion.Proofs.FloatMap.Printed
import Demotion.Proofs.Service.Upload

/-!
# Results that cannot be sent

A value can be sent if its numbers have a form in standard JSON and its strings are texts. The strings of a result
are texts but for the submitted name and those of its records, which are taken from the float map as they are.

* `isSendable_eq`: what it takes to send a value.
* `isTextContent_render`: a value is written as a text exactly if its strings are texts.
* `isSendable_toJson`: **what it takes to send a result**: the form of its numbers, and that the submitted name
  and the records are texts.
-/

namespace Demotion

namespace Json

/-! ## What is asked of all numbers and strings -/

section

variable (f f' : String → Bool) (g g' : Content → Bool)

mutual

/-- Two conditions on the numbers and strings of a value hold together exactly if each does. -/
theorem checkAll_and : ∀ v : Json,
    checkAll (fun n => f n && f' n) (fun c => g c && g' c) v = (checkAll f g v && checkAll f' g' v)
  | .null => rfl
  | .bool _ => rfl
  | .number _ => rfl
  | .string _ => rfl
  | .array items => checkItems_and items
  | .object members => checkMembers_and members

theorem checkItems_and : ∀ items : List Json,
    checkItems (fun n => f n && f' n) (fun c => g c && g' c) items =
      (checkItems f g items && checkItems f' g' items)
  | [] => rfl
  | v :: vs => by
    rw [checkItems, checkItems, checkItems, checkAll_and v, checkItems_and vs]
    ac_rfl

theorem checkMembers_and : ∀ members : List (Content × Json),
    checkMembers (fun n => f n && f' n) (fun c => g c && g' c) members =
      (checkMembers f g members && checkMembers f' g' members)
  | [] => rfl
  | (name, v) :: ms => by
    rw [checkMembers, checkMembers, checkMembers, checkAll_and v, checkMembers_and ms]
    ac_rfl

end

theorem checkItems_eq (items : List Json) : checkItems f g items = items.all (checkAll f g) := by
  induction items with
  | nil => rfl
  | cons v vs ih => rw [checkItems, List.all_cons, ih]

theorem checkMembers_eq (members : List (Content × Json)) :
    checkMembers f g members = members.all fun m => g m.1 && checkAll f g m.2 := by
  induction members with
  | nil => rfl
  | cons m ms ih => rw [checkMembers, List.all_cons, ih]

end

/-- Whether the numbers in a value can be written in standard JSON: they are finite, and not too long. -/
def hasPlainNumbers (v : Json) : Bool :=
  checkAll (fun n => isWritableNumber n && isFiniteNumber n) (fun _ => true) v

/-- Whether the strings in a value are texts. -/
def hasTexts (v : Json) : Bool :=
  checkAll (fun _ => true) isTextContent v

/-- **What it takes to send a value.** -/
theorem isSendable_eq (v : Json) : v.isSendable = (v.hasPlainNumbers && v.hasTexts) := by
  have h := checkAll_and (fun n => isWritableNumber n && isFiniteNumber n) (fun _ => true) (fun _ => true)
    isTextContent v
  simp only [Bool.and_true, Bool.true_and] at h
  exact h

/-- What can be sent can be written. -/
theorem isWritable_of_isSendable {v : Json} (h : v.isSendable = true) : v.isWritable = true := by
  have hand := checkAll_and isWritableNumber isFiniteNumber (fun _ => true) isTextContent v
  simp only [Bool.true_and] at hand
  unfold isSendable at h
  rw [hand, Bool.and_eq_true] at h
  exact h.1

/-! ## Writing -/

@[simp]
theorem isTextContent_nil : isTextContent [] = true := rfl

@[simp]
theorem isTextContent_append (c d : Content) :
    isTextContent (c ++ d) = (isTextContent c && isTextContent d) := by
  rw [Bool.eq_iff_iff, Bool.and_eq_true]
  simp only [isTextContent_eq_true, List.mem_append, not_or, forall_and]

@[simp]
theorem isTextContent_char (c : Char) (content : Content) :
    isTextContent (.char c :: content) = isTextContent content := by
  rw [isTextContent, CodePoint.text?, Option.isSome_map, isTextContent]

@[simp]
theorem isTextContent_writeString (content : Content) :
    isTextContent (writeString content) = isTextContent content := by
  rw [Bool.eq_iff_iff, isTextContent_eq_true, isTextContent_eq_true]
  refine forall_congr' fun n => not_congr ?_
  simp only [writeString, List.cons_append, List.mem_cons, List.mem_append, List.mem_flatMap]
  constructor
  · rintro (h | ⟨point, hmem, hpoint⟩ | h)
    · cases h
    · -- a half stands for itself, and a character for characters
      cases point with
      | half k =>
        rw [writeCodePoint, List.mem_singleton] at hpoint
        rwa [hpoint]
      | char c =>
        obtain ⟨d, -, hd⟩ := List.mem_map.1 hpoint
        cases hd
    · simp at h
  · intro h
    exact Or.inr (Or.inl ⟨.half n, h, List.mem_singleton_self _⟩)

@[simp]
theorem isTextContent_lineBreak (depth : Nat) : isTextContent (lineBreak depth) = true := by
  rw [isTextContent_eq_true]
  intro n h
  rw [lineBreak, List.mem_cons, List.mem_replicate] at h
  rcases h with h | ⟨-, h⟩ <;> cases h

mutual

/-- Lone halves are written where the strings of a value have them, and nowhere else. -/
theorem isTextContent_write (depth : Nat) : ∀ v : Json, isTextContent (write depth v) = v.hasTexts
  | .null => rfl
  | .bool true => rfl
  | .bool false => rfl
  | .number spelling => isTextContent_ofText spelling
  | .string content => isTextContent_writeString content
  | .array [] => rfl
  | .array (v :: vs) => by
    simp [write, isTextContent_write (depth + 1) v, isTextContent_writeItems (depth + 1) vs, hasTexts, checkAll,
      checkItems]
  | .object [] => rfl
  | .object ((name, v) :: ms) => by
    simp [write, isTextContent_write (depth + 1) v, isTextContent_writeMembers (depth + 1) ms, hasTexts, checkAll,
      checkMembers, Bool.and_assoc]

theorem isTextContent_writeItems (depth : Nat) : ∀ items : List Json,
    isTextContent (writeItems depth items) = checkItems (fun _ => true) isTextContent items
  | [] => rfl
  | v :: vs => by
    simp [writeItems, isTextContent_write depth v, isTextContent_writeItems depth vs, hasTexts, checkItems]

theorem isTextContent_writeMembers (depth : Nat) : ∀ members : List (Content × Json),
    isTextContent (writeMembers depth members) = checkMembers (fun _ => true) isTextContent members
  | [] => rfl
  | (name, v) :: ms => by
    simp [writeMembers, isTextContent_write depth v, isTextContent_writeMembers depth ms, hasTexts, checkMembers,
      Bool.and_assoc]

end

/-- **A value is written as a text exactly if its strings are texts.** -/
theorem isTextContent_render (v : Json) : isTextContent v.render = v.hasTexts :=
  isTextContent_write 0 v

/-! ## Records -/

@[simp]
theorem hasTexts_record (members : List (String × Json)) :
    (record members).hasTexts = members.all fun m => m.2.hasTexts := by
  unfold hasTexts record
  rw [checkAll, checkMembers_eq, List.all_map]
  congr 1
  funext m
  simp

@[simp]
theorem hasTexts_array (items : List Json) : (array items).hasTexts = items.all hasTexts :=
  checkItems_eq _ _ items

@[simp]
theorem hasTexts_text (s : String) : (text s).hasTexts = true :=
  isTextContent_ofText s

@[simp]
theorem hasTexts_texts (items : List String) : (texts items).hasTexts = true := by
  rw [texts, hasTexts_array, List.all_map, List.all_eq_true]
  exact fun s _ => hasTexts_text s

@[simp]
theorem hasTexts_string (content : Content) : (string content).hasTexts = isTextContent content := rfl

@[simp]
theorem hasTexts_bool (b : Bool) : (bool b).hasTexts = true := rfl

@[simp]
theorem hasTexts_int (n : Int) : (int n).hasTexts = true := rfl

end Json

/-! ## Results -/

namespace Analysis

@[simp]
theorem hasTexts_realToJson (x : Binary64) : (realToJson x).hasTexts = true := by
  rcases x with _ | (_ | _) | _ <;> rfl

@[simp]
theorem all_member {α : Type} (name : String) (toJson : α → Json) (o : Option α) (p : Json → Bool) :
    (member name toJson o).all (fun m => p m.2) = o.all fun v => p (toJson v) := by
  cases o with
  | none => rfl
  | some v => exact Bool.and_true _

theorem hasTexts_record_toJson (r : FloatMap.Record) : r.toJson.hasTexts = r.texts.all Json.isTextContent := by
  unfold FloatMap.Record.toJson FloatMap.Record.texts
  cases r.reason <;> cases r.downcast <;> cases r.error <;> cases r.mode <;> simp

theorem hasTexts_summary (s : Summary) : s.toJson.hasTexts = true := by
  unfold Summary.toJson savingsToJson
  cases s.memory <;> simp [member]

theorem hasTexts_report (r : MemoryReport) : r.toJson.hasTexts = true := by
  unfold MemoryReport.toJson
  simp

/-- The strings of a result are texts but for the submitted name and those of its records. -/
theorem hasTexts_toJson (r : Result) :
    r.toJson.hasTexts = (Json.isTextContent r.submittedName &&
      (r.jsonAnalysis.getD []).all fun record => record.texts.all Json.isTextContent) := by
  have hdifferences : ∀ es : List LineDiff.Entry, (Json.array (es.map entryToJson)).hasTexts = true := by
    intro es
    rw [Json.hasTexts_array, List.all_map, List.all_eq_true]
    intro e _
    simp [entryToJson]
  have hrecords : ∀ records : List FloatMap.Record,
      (Json.array (records.map (·.toJson))).hasTexts =
        records.all fun record => record.texts.all Json.isTextContent := by
    intro records
    rw [Json.hasTexts_array, List.all_map]
    congr 1
    funext record
    exact hasTexts_record_toJson record
  unfold Result.toJson Result.analysisToJson
  cases r.jsonAnalysis <;>
    simp [hdifferences, hrecords, hasTexts_summary, hasTexts_report, -Json.hasTexts_array]

/-- **What it takes to send a result**: the form of its numbers, and that the submitted name and the records are
texts. -/
theorem isSendable_toJson (r : Result) :
    r.toJson.isSendable = (r.toJson.hasPlainNumbers && (Json.isTextContent r.submittedName &&
      (r.jsonAnalysis.getD []).all fun record => record.texts.all Json.isTextContent)) := by
  rw [Json.isSendable_eq, hasTexts_toJson]

end Analysis

end Demotion
