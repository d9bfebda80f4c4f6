import Demotion.Proofs.FloatMap.Document
import Demotion.Proofs.Json.Nesting

/-!
# Which float maps are parsed

Whatever a text holds, parsing it gives records or says what the matter is, with one exception: a text in which
containers stand too deep in each other is not parsed at all. How deep they may stand is for the host to say.

* `Problem.message_ne`: a problem is told in words.
* `parse_error_iff`: parsing fails exactly if the mended text has a container that stands too deep.
* `parse_unusable`: a text that is no array has no records, and a problem.
* `parse_ok_iff`: **a text is parsed, and told to be no array if it is none, unless containers stand too deep.**
* `parse_fails_brackets`: opening brackets alone can do that.
-/

namespace Demotion

theorem Text.append_ne_empty {s t : String} (h : s ≠ "") : s ++ t ≠ "" := by
  rw [ne_eq, String.append_eq_empty_iff, not_and]
  intro hs
  exact absurd hs h

namespace Json

theorem read_nested_iff {depth : Nat} {s : String} {c : Container} :
    read depth none s = .error (.nested c) ↔ Style.plain.TooDeep depth c s.toList := by
  rw [← readText_nested_iff]
  unfold read
  cases readText depth none s.toList with
  | ok v => simp
  | error e => cases e <;> simp [Failure.locate]

end Json

namespace FloatMap

/-- Every problem is told in words. -/
theorem Problem.message_ne (problem : Problem) : problem.message ≠ "" := by
  unfold Problem.message
  cases problem with
  | unreadable e => exact Text.append_ne_empty (s := "Invalid float map JSON: ") (by decide)
  | notArray kind => exact Text.append_ne_empty (s := "Float map must be a JSON array, got ") (by decide)
  | skipped entries =>
    dsimp only
    -- the message is a chain of pieces, of which the first is not empty
    repeat refine Text.append_ne_empty ?_
    decide

section Parse

variable {depth : Nat} {raw : String}

/-- **Parsing fails** exactly if a container of the mended text stands too deep. -/
theorem parse_error_iff {c : Json.Container} :
    parse depth raw = .error c ↔ Json.Style.plain.TooDeep depth c (sanitize raw).toList := by
  rw [← Json.read_nested_iff]
  unfold parse
  cases Json.read depth none (sanitize raw) with
  | ok v => simp
  | error e => cases e <;> simp

/-- A text that is no array has no records, and a problem. -/
theorem parse_unusable {parsed : Parsed} (h : parse depth raw = .ok parsed)
    (harray : ¬∃ entries, Json.Style.plain.Text depth (sanitize raw).toList (.array entries)) :
    parsed.records = [] ∧ ∃ problem, parsed.problem = some problem ∧ problem.message ≠ "" := by
  unfold parse at h
  cases hread : Json.read depth none (sanitize raw) with
  | ok v =>
    rw [hread] at h
    obtain rfl := Except.ok.inj h
    cases v with
    | array entries => exact absurd ⟨entries, Json.read_iff.1 hread⟩ harray
    | _ => exact ⟨rfl, _, rfl, Problem.message_ne _⟩
  | error e =>
    rw [hread] at h
    cases e with
    | nested container => cases h
    | _ =>
      obtain rfl := Except.ok.inj h
      exact ⟨rfl, _, rfl, Problem.message_ne _⟩

end Parse

/-- **A float map is parsed unless containers stand too deep in it.** Then, and only then, there is a result, and
it has no records and a problem that is told in words if the mended text is no JSON array. Otherwise parsing
fails with the kind of the first container that stands too deep. -/
theorem parse_ok_iff (depth : Nat) (raw : String) :
    ((∃ parsed, parse depth raw = .ok parsed ∧
        ((¬∃ entries, Json.Style.plain.Text depth (sanitize raw).toList (.array entries)) →
          parsed.records = [] ∧ ∃ problem, parsed.problem = some problem ∧ problem.message ≠ "")) ↔
      ∀ c, ¬Json.Style.plain.TooDeep depth c (sanitize raw).toList) ∧
      ∀ c, parse depth raw = .error c ↔ Json.Style.plain.TooDeep depth c (sanitize raw).toList := by
  refine ⟨?_, fun c => parse_error_iff⟩
  constructor
  · rintro ⟨parsed, hparsed, -⟩ c hdeep
    rw [parse_error_iff.2 hdeep] at hparsed
    cases hparsed
  · intro h
    cases hparse : parse depth raw with
    | error c => exact absurd (parse_error_iff.1 hparse) (h c)
    | ok parsed => exact ⟨parsed, rfl, parse_unusable hparse⟩

/-! ## Brackets -/

theorem overfull_replicate (depth more : Nat) :
    Json.Style.plain.Overfull .array depth (List.replicate (depth + 1 + more) '[') := by
  induction depth with
  | zero =>
    rw [Nat.zero_add, Nat.add_comm, List.replicate_succ]
    exact rfl
  | succ depth ih =>
    rw [Nat.add_right_comm (depth + 1), List.replicate_succ]
    exact .array (.here .none) ih

theorem toList_sanitize_replicate (n : Nat) :
    (sanitize (String.ofList (List.replicate n '['))).toList = List.replicate n '[' := by
  have hsolid : ∀ c ∈ List.replicate n '[', IsSolid c := by
    intro c hc
    obtain rfl := List.eq_of_mem_replicate hc
    decide
  have hnil : repair [] = [] := replaceWords_nil
  have hrepair := repair_append hsolid []
  rw [List.append_nil, hnil, List.append_nil] at hrepair
  rw [sanitize, String.toList_ofList, String.toList_ofList, hrepair]

/-- More opening brackets than containers may stand deep are not parsed. -/
theorem parse_replicate {depth n : Nat} (h : depth < n) :
    parse depth (String.ofList (List.replicate n '[')) = .error .array := by
  obtain ⟨more, rfl⟩ : ∃ more, n = depth + 1 + more := ⟨n - (depth + 1), by omega⟩
  rw [parse_error_iff, toList_sanitize_replicate]
  exact ⟨_, .none, overfull_replicate _ more⟩

/-- **Opening brackets alone can stop the parser**, wherever containers may not stand as deep as that. -/
theorem parse_fails_brackets :
    ¬∃ depth < 10000, ∃ parsed, parse depth (String.ofList (List.replicate 10000 '[')) = .ok parsed := by
  rintro ⟨depth, hdepth, parsed, hparsed⟩
  rw [parse_replicate hdepth] at hparsed
  cases hparsed

end FloatMap

end Demotion
