import Demotion.Proofs.Text.LowerCase

/-!
# Contents and texts

A content is a text exactly if no half stands alone in it. What encoding and lower case do to a content is told
by its code points.

* `CodePoint.text?_eq_some`, `CodePoint.isSome_text?`: the contents that are texts.
* `refused?_eq_none`: an encoding takes a content exactly if it takes every half of it.
* `char_mem_of_mem_lower`, `half_mem_lower`: lower case adds no plain characters and leaves halves as they are.
* `lower_dot`: an extension stays one in lower case.
-/

namespace Demotion

/-- A content made of characters is the text that they make. -/
theorem CodePoint.text?_map_char (s : List Char) : CodePoint.text? (s.map .char) = some s := by
  induction s with
  | nil => rfl
  | cons c s ih => rw [List.map_cons, CodePoint.text?, ih, Option.map_some]

theorem CodePoint.text?_eq_some {content : Content} {s : List Char} :
    CodePoint.text? content = some s ↔ content = s.map .char := by
  constructor
  · intro h
    induction content generalizing s with
    | nil => cases h; rfl
    | cons point content ih =>
      cases point with
      | half n => cases h
      | char c =>
        obtain ⟨t, ht, rfl⟩ := Option.map_eq_some_iff.1 h
        rw [List.map_cons, ih ht]
  · rintro rfl
    exact CodePoint.text?_map_char s

theorem CodePoint.isSome_text? {content : Content} :
    (CodePoint.text? content).isSome = true ↔ ∀ n, .half n ∉ content := by
  induction content with
  | nil => simp [CodePoint.text?]
  | cons point content ih =>
    cases point with
    | half n => exact ⟨fun h => (by cases h), fun h => absurd List.mem_cons_self (h n)⟩
    | char c => simp [CodePoint.text?, ih]

namespace Content

/-! ## Texts -/

theorem ofText_injective : Function.Injective ofText := by
  intro s t h
  have hchar : Function.Injective CodePoint.char := fun c d hcd => by cases hcd; rfl
  exact String.toList_injective (List.map_injective_iff.2 hchar h)

theorem ofText_append (s t : String) : ofText (s ++ t) = ofText s ++ ofText t := by
  unfold ofText
  rw [String.toList_append, List.map_append]

theorem size_append (c d : Content) : size (c ++ d) = size c + size d := by
  induction c with
  | nil => rw [List.nil_append, size, Nat.zero_add]
  | cons point c ih => rw [List.cons_append, size, size, ih, Nat.add_assoc]

theorem char_mem_ofText {s : String} {c : Char} : .char c ∈ ofText s ↔ c ∈ s.toList := by
  unfold ofText
  rw [List.mem_map]
  constructor
  · rintro ⟨d, hd, h⟩
    cases h
    exact hd
  · intro h
    exact ⟨c, h, rfl⟩

theorem half_not_mem_ofText (s : String) (n : Nat) : .half n ∉ ofText s := by
  intro h
  obtain ⟨c, -, hc⟩ := List.mem_map.1 h
  cases hc

/-! ## Encoding -/

theorem refused?_eq_none {takes : Nat → Bool} {position : Nat} {c : Content} :
    c.refused? takes position = none ↔ ∀ n, .half n ∈ c → takes n = true := by
  induction c generalizing position with
  | nil => simp [refused?]
  | cons point c ih =>
    cases point with
    | char d => simp [refused?, ih]
    | half n =>
      rw [refused?]
      by_cases htakes : takes n = true
      · simp [htakes, ih]
      · simp [htakes]

theorem hasNull_eq_false {c : Content} : c.hasNull = false ↔ .char '\x00' ∉ c := by
  unfold hasNull
  rw [← Bool.not_eq_true, List.contains_iff_mem]

/-! ## Lower case -/

theorem char_mem_of_mem_lowerAfter {c : Content} {passed : List Char} {d : Char} (hd : d.toNat ≤ 96)
    (h : .char d ∈ c.lowerAfter passed) : d ∈ passed ∨ .char d ∈ c := by
  -- what was passed is put in lower case as a whole
  have hpassed : ∀ passed : List Char, .char d ∈ (Text.lower passed.reverse).map CodePoint.char → d ∈ passed := by
    intro passed hmem
    obtain ⟨e, he, heq⟩ := List.mem_map.1 hmem
    cases heq
    exact List.mem_reverse.1 (Text.mem_of_mem_lower hd he)
  induction c generalizing passed with
  | nil => exact Or.inl (hpassed passed h)
  | cons point c ih =>
    cases point with
    | char e =>
      rcases ih h with hmem | hmem
      · rcases List.mem_cons.1 hmem with rfl | hmem
        · exact Or.inr List.mem_cons_self
        · exact Or.inl hmem
      · exact Or.inr (List.mem_cons_of_mem _ hmem)
    | half n =>
      rcases List.mem_append.1 h with hmem | hmem
      · exact Or.inl (hpassed passed hmem)
      · rcases List.mem_cons.1 hmem with heq | hmem
        · cases heq
        · rcases ih hmem with hnil | hmem
          · cases hnil
          · exact Or.inr (List.mem_cons_of_mem _ hmem)

/-- A plain character of the lower-case form is one of the content. -/
theorem char_mem_of_mem_lower {c : Content} {d : Char} (hd : d.toNat ≤ 96) (h : .char d ∈ c.lower) :
    .char d ∈ c :=
  (char_mem_of_mem_lowerAfter hd h).resolve_left List.not_mem_nil

theorem half_mem_lowerAfter {c : Content} {passed : List Char} {n : Nat} :
    .half n ∈ c.lowerAfter passed ↔ .half n ∈ c := by
  have hpassed : ∀ s : List Char, CodePoint.half n ∉ s.map CodePoint.char := by
    intro s hmem
    obtain ⟨e, -, heq⟩ := List.mem_map.1 hmem
    cases heq
  induction c generalizing passed with
  | nil => exact iff_of_false (hpassed _) List.not_mem_nil
  | cons point c ih =>
    cases point with
    | char e =>
      rw [List.mem_cons, or_iff_right (by simp)]
      exact ih
    | half m =>
      rw [lowerAfter, List.mem_append, or_iff_right (hpassed _), List.mem_cons, List.mem_cons]
      exact or_congr_right ih

/-- Lower case leaves the halves of a content. -/
theorem half_mem_lower {c : Content} {n : Nat} : .half n ∈ c.lower ↔ .half n ∈ c :=
  half_mem_lowerAfter

theorem lowerAfter_dot {c : Content} {passed : List Char} (hpassed : '.' ∉ passed) (hc : .char '.' ∉ c) :
    ∃ ext, c.lowerAfter (passed ++ ['.']) = .char '.' :: ext ∧ (passed ≠ [] ∨ c ≠ [] → ext ≠ []) ∧
      .char '.' ∉ ext := by
  -- the dot comes first in what was passed, and stays a dot
  have hlower : ∀ s, Text.lower ('.' :: s) = '.' :: Text.lowerFrom ['.'] s := by
    intro s
    have hdot : Text.lowerChar '.' = ['.'] := by decide +kernel
    rw [Text.lower, Text.lowerFrom, hdot]
    rfl
  have hown : ∀ passed : List Char, '.' ∉ passed →
      .char '.' ∉ (Text.lowerFrom ['.'] passed.reverse).map CodePoint.char := by
    intro passed hpassed hmem
    obtain ⟨e, he, heq⟩ := List.mem_map.1 hmem
    cases heq
    rcases (Text.mem_lowerFrom he).2 with hmem | hform
    · exact hpassed (List.mem_reverse.1 hmem)
    · exact absurd hform.lt (by decide)
  induction c generalizing passed with
  | nil =>
    rw [lowerAfter, List.reverse_append, List.reverse_singleton, List.singleton_append, hlower]
    refine ⟨_, rfl, fun hne => ?_, hown passed hpassed⟩
    have hne' : passed.reverse ≠ [] := by simpa using hne
    simpa using Text.lowerFrom_ne_nil hne' ['.']
  | cons point c ih =>
    rw [List.mem_cons, not_or] at hc
    cases point with
    | char e =>
      have hpassed' : '.' ∉ e :: passed := by
        rw [List.mem_cons, not_or]
        exact ⟨fun he => hc.1 (he ▸ rfl), hpassed⟩
      obtain ⟨ext, hext, hne, hdot⟩ := ih hpassed' hc.2
      exact ⟨ext, hext, fun _ => hne (Or.inl (List.cons_ne_nil _ _)), hdot⟩
    | half n =>
      rw [lowerAfter, List.reverse_append, List.reverse_singleton, List.singleton_append, hlower]
      refine ⟨_, rfl, fun _ => by simp, ?_⟩
      intro hmem
      rcases List.mem_append.1 hmem with hmem | hmem
      · exact hown passed hpassed hmem
      · rcases List.mem_cons.1 hmem with heq | hmem
        · cases heq
        · exact hc.2 (char_mem_of_mem_lower (by decide) hmem)

/-- An extension in lower case is still a dot with something behind it, but no further dot. -/
theorem lower_dot {ext : Content} (hne : ext ≠ []) (hdot : .char '.' ∉ ext) :
    ∃ ext', Content.lower (.char '.' :: ext) = .char '.' :: ext' ∧ ext' ≠ [] ∧ .char '.' ∉ ext' := by
  obtain ⟨ext', hlower, hne', hdot'⟩ := lowerAfter_dot (List.not_mem_nil : '.' ∉ []) hdot
  exact ⟨ext', hlower, hne' (Or.inr hne), hdot'⟩

end Content

end Demotion
