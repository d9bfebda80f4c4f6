import Demotion.MemoryReport.Basic
import Demotion.Proofs.Text.Words

/-!
# Keys and values of a memory report

A key is written without white space and in lower case, whatever text it was read from, and such a text is its
own key. It is made of the words of the text, so that white space around and between them makes no difference. A
value is a text without white space around it.

* `trim_trim`, `trim_infix`: what is left without the white space around it.
* `isKey_normalizeKey`: the key of a text is written as a key.
* `normalizeKey_of_isKey`: **what is written as a key is its own key.**
* `normalizeKey_eq`: **a key is the words of the text in lower case, with underscores between them.**
* `normalizeKey_canonical`: keys have one form, and the words of a text decide it.
-/

namespace Demotion

/-! ## White space around a text -/

namespace Text

theorem dropEndWhile_eq (p : Char → Bool) (s : List Char) : dropEndWhile p s = s.rdropWhile p := by
  induction s with
  | nil => rfl
  | cons c s ih =>
    rw [dropEndWhile, ih]
    unfold List.rdropWhile
    rw [List.reverse_cons, List.dropWhile_append]
    cases hrest : s.reverse.dropWhile p with
    | nil => by_cases hc : p c = true <;> simp [hc]
    | cons d rest => simp

theorem trim_eq (s : List Char) : trim s = (s.dropWhile isBlank).rdropWhile isBlank :=
  dropEndWhile_eq isBlank _

theorem trim_infix (s : List Char) : trim s <:+: s := by
  rw [trim_eq]
  exact (List.rdropWhile_prefix _ _).isInfix.trans (List.dropWhile_suffix _).isInfix

theorem trim_cons_of_blank {c : Char} (hc : isBlank c = true) (s : List Char) : trim (c :: s) = trim s := by
  rw [trim_eq, trim_eq, List.dropWhile_cons_of_pos hc]

/-- A text that does not start with white space keeps its start. -/
theorem trim_cons {c : Char} (hc : isBlank c = false) (s : List Char) :
    trim (c :: s) = c :: s.rdropWhile isBlank := by
  rw [trim_eq, List.dropWhile_cons_of_neg (by simp [hc])]
  unfold List.rdropWhile
  rw [List.reverse_cons, List.dropWhile_append]
  cases hrest : s.reverse.dropWhile isBlank with
  | nil => simp [hc]
  | cons d rest => simp

theorem trim_eq_nil {s : List Char} : trim s = [] ↔ isBlankText s = true := by
  unfold isBlankText
  rw [trim_eq, List.rdropWhile_eq_nil_iff, List.all_eq_true]
  constructor
  · intro h c hc
    rw [← List.takeWhile_append_dropWhile (p := isBlank) (l := s)] at hc
    rcases List.mem_append.1 hc with hc | hc
    · exact List.mem_takeWhile_imp hc
    · exact h c hc
  · intro h c hc
    exact h c ((List.dropWhile_sublist _).subset hc)

/-- White space is taken off once and for all. -/
theorem trim_trim (s : List Char) : trim (trim s) = trim s := by
  cases htrim : trim s with
  | nil => rfl
  | cons c rest =>
    -- what is left starts where the text without the white space before it starts
    have hprefix : trim s <+: s.dropWhile isBlank := by
      rw [trim_eq]
      exact List.rdropWhile_prefix _ _
    have hc : isBlank c = false := by
      rw [htrim] at hprefix
      obtain ⟨more, hmore⟩ := hprefix
      have hhead := List.head?_dropWhile_not isBlank s
      rw [← hmore] at hhead
      simpa using hhead
    have hself : (trim s).rdropWhile isBlank = trim s := by
      rw [trim_eq]
      exact List.rdropWhile_idempotent _ _
    rw [trim_eq, List.dropWhile_cons_of_neg (by simp [hc]), ← htrim, hself]

theorem rdropWhile_append (p : Char → Bool) (s t : List Char) :
    (s ++ t).rdropWhile p = if t.rdropWhile p = [] then s.rdropWhile p else s ++ t.rdropWhile p := by
  unfold List.rdropWhile
  rw [List.reverse_append, List.dropWhile_append]
  cases ht : t.reverse.dropWhile p with
  | nil => simp
  | cons c rest => simp

/-- White space may be taken off the end first. -/
theorem trim_eq_dropWhile (s : List Char) : trim s = (s.rdropWhile isBlank).dropWhile isBlank := by
  induction s with
  | nil => rfl
  | cons c s ih =>
    have hcons := rdropWhile_append isBlank [c] s
    rw [List.singleton_append] at hcons
    cases hc : isBlank c with
    | true =>
      rw [trim_cons_of_blank hc, ih, hcons]
      split
      · rename_i hnil
        rw [hnil, List.rdropWhile_singleton, if_pos hc]
      · rw [List.singleton_append, List.dropWhile_cons_of_pos hc]
    | false =>
      rw [trim_cons hc, hcons]
      split
      · rename_i hnil
        rw [hnil, List.rdropWhile_singleton, if_neg (by simp [hc]), List.dropWhile_cons_of_neg (by simp [hc])]
      · rw [List.singleton_append, List.dropWhile_cons_of_neg (by simp [hc])]

/-- Taking white space off and putting in lower case may change places. -/
theorem lower_trim (s : List Char) : lower (trim s) = trim (lower s) := by
  rw [trim_eq, trim_eq, lower_rdropWhile, lower_dropWhile]

theorem trim_of_not_blank {s : List Char} (h : ∀ c ∈ s, isBlank c = false) : trim s = s := by
  have hdrop : s.dropWhile isBlank = s := by
    cases s with
    | nil => rfl
    | cons c s => rw [List.dropWhile_cons_of_neg (by simp [h c List.mem_cons_self])]
  rw [trim_eq, hdrop, List.rdropWhile_eq_self_iff]
  intro hne
  simp [h _ (List.getLast_mem hne)]

/-- A text that starts with a word keeps it, and what follows up to the last word. -/
theorem trim_word {d c : Char} {piece : List Char} (h : ∀ e ∈ d :: piece, isBlank e = false)
    (hc : isBlank c = true) (rest : List Char) :
    trim (d :: piece ++ c :: rest) =
      if isBlankText rest = true then d :: piece else d :: piece ++ c :: rest.rdropWhile isBlank := by
  have hkept : piece.rdropWhile isBlank = piece := by
    rw [List.rdropWhile_eq_self_iff]
    intro hne
    simp [h _ (List.mem_cons_of_mem d (List.getLast_mem hne))]
  have hblank : isBlankText rest = true ↔ rest.rdropWhile isBlank = [] := by
    rw [isBlankText, List.all_eq_true, List.rdropWhile_eq_nil_iff]
  have hrest := rdropWhile_append isBlank [c] rest
  rw [List.rdropWhile_singleton, if_pos hc, List.singleton_append, List.singleton_append] at hrest
  rw [List.cons_append, trim_cons (h d List.mem_cons_self), rdropWhile_append, hrest]
  simp only [hblank]
  split
  · rw [if_pos rfl, hkept]
  · rw [if_neg (List.cons_ne_nil _ _)]
    rfl

end Text

namespace MemoryReport

/-! ## Words of a key -/

theorem mem_joinWords {s : List Char} {c : Char} (h : c ∈ joinWords s) :
    Text.isBlank c = false ∧ (c = '_' ∨ c ∈ s) := by
  have hunderscore : Text.isBlank '_' = false := by decide
  fun_induction joinWords s with
  | case1 => cases h
  | case2 d hd e rest he ih => exact ⟨(ih h).1, (ih h).2.imp_right (List.mem_cons_of_mem d)⟩
  | case3 d hd e rest he ih =>
    rcases List.mem_cons.1 h with rfl | h
    · exact ⟨hunderscore, Or.inl rfl⟩
    · exact ⟨(ih h).1, (ih h).2.imp_right (List.mem_cons_of_mem d)⟩
  | case4 d hd =>
    obtain rfl := List.mem_singleton.1 h
    exact ⟨hunderscore, Or.inl rfl⟩
  | case5 d rest hd ih =>
    rcases List.mem_cons.1 h with rfl | h
    · exact ⟨by simpa using hd, Or.inr List.mem_cons_self⟩
    · exact ⟨(ih h).1, (ih h).2.imp_right (List.mem_cons_of_mem d)⟩

theorem joinWords_of_not_blank {s : List Char} (h : ∀ c ∈ s, Text.isBlank c = false) : joinWords s = s := by
  induction s with
  | nil => rfl
  | cons c s ih =>
    have hc := h c List.mem_cons_self
    have hrest := ih fun d hd => h d (List.mem_cons_of_mem c hd)
    rw [joinWords.eq_def]
    simp only [hc, Bool.false_eq_true, if_false, hrest]

theorem joinWords_ne_nil {s : List Char} (h : s ≠ []) : joinWords s ≠ [] := by
  fun_induction joinWords s with
  | case1 => exact absurd rfl h
  | case2 d hd e rest he ih => exact ih (List.cons_ne_nil _ _)
  | case3 => exact List.cons_ne_nil _ _
  | case4 => exact List.cons_ne_nil _ _
  | case5 => exact List.cons_ne_nil _ _

theorem joinWords_append {s : List Char} (h : ∀ c ∈ s, Text.isBlank c = false) (t : List Char) :
    joinWords (s ++ t) = s ++ joinWords t := by
  induction s with
  | nil => rfl
  | cons c s ih =>
    have hc := h c List.mem_cons_self
    have hrest := ih fun d hd => h d (List.mem_cons_of_mem c hd)
    rw [List.cons_append, joinWords.eq_def]
    simp only [hc, Bool.false_eq_true, if_false, hrest, List.cons_append]

/-- A run of white space becomes one underscore. -/
theorem joinWords_blank {c : Char} (hc : Text.isBlank c = true) (s : List Char) :
    joinWords (c :: s) = '_' :: joinWords (s.dropWhile Text.isBlank) := by
  induction s generalizing c with
  | nil =>
    rw [joinWords.eq_def]
    simp only [hc, if_true]
    rfl
  | cons d s ih =>
    rw [joinWords.eq_def]
    cases hd : Text.isBlank d with
    | true => simp only [hc, hd, if_true, ih hd, List.dropWhile_cons_of_pos]
    | false =>
      rw [List.dropWhile_cons_of_neg (by simp [hd])]
      simp only [hc, hd, Bool.false_eq_true, if_true, if_false]

/-- A text without white space around it is joined word by word. -/
theorem joinWords_trim (s : List Char) : joinWords (Text.trim s) = ['_'].intercalate (Text.words s) := by
  induction s using Text.piece_induction Text.isBlank with
  | last s h =>
    rw [Text.trim_of_not_blank h, joinWords_of_not_blank h, Text.words_of_not_blank h]
    cases s with
    | nil => rfl
    | cons c s => exact List.intercalate_singleton.symm
  | more piece c rest h hc ih =>
    rw [Text.words_append_blank hc, Text.words_of_not_blank h]
    cases piece with
    | nil =>
      rw [List.nil_append, Text.trim_cons_of_blank hc, ih]
      rfl
    | cons d piece =>
      have hword : [d :: piece].filter (· ≠ []) = [d :: piece] := rfl
      rw [Text.trim_word h hc, hword, List.singleton_append]
      -- behind the piece there is only white space, or there are more words
      by_cases hrest : Text.words rest = []
      · rw [if_pos (Text.words_eq_nil.1 hrest), joinWords_of_not_blank h, hrest, List.intercalate_singleton]
      · rw [if_neg (hrest ∘ Text.words_eq_nil.2), joinWords_append h, joinWords_blank hc,
          ← Text.trim_eq_dropWhile, ih, List.intercalate_cons_of_ne_nil hrest, List.append_assoc]
        rfl

/-! ## Keys -/

/-- Written as a key: without white space and in lower case. -/
def IsKey (key : String) : Prop :=
  ∀ c ∈ key.toList, Text.isBlank c = false ∧ Text.IsSmall c

theorem toList_normalizeKey (key : String) :
    (normalizeKey key).toList = joinWords (Text.lower (Text.trim key.toList)) :=
  String.toList_ofList

/-- The key of a text is written as a key. -/
theorem isKey_normalizeKey (key : String) : IsKey (normalizeKey key) := by
  intro c hc
  rw [toList_normalizeKey] at hc
  obtain ⟨hblank, rfl | hmem⟩ := mem_joinWords hc
  · exact ⟨hblank, by unfold Text.IsSmall; decide +kernel⟩
  · exact ⟨hblank, Text.isSmall_of_mem_lower hmem⟩

/-- **What is written as a key is its own key.** -/
theorem normalizeKey_of_isKey {key : String} (h : IsKey key) : normalizeKey key = key := by
  have hblank : ∀ c ∈ key.toList, Text.isBlank c = false := fun c hc => (h c hc).1
  have hsmall : ∀ c ∈ key.toList, Text.IsSmall c := fun c hc => (h c hc).2
  unfold normalizeKey
  rw [Text.trim_of_not_blank hblank, Text.lower_of_isSmall hsmall, joinWords_of_not_blank hblank,
    String.ofList_toList]

theorem normalizeKey_ne_empty {key : String} (h : Text.isBlankText key.toList = false) :
    normalizeKey key ≠ "" := by
  have htrim : Text.trim key.toList ≠ [] := by
    rw [Ne, Text.trim_eq_nil, h]
    exact Bool.false_ne_true
  intro hempty
  have hnil := congrArg String.toList hempty
  rw [toList_normalizeKey] at hnil
  exact joinWords_ne_nil (Text.lowerFrom_ne_nil htrim []) hnil

/-- **A key is the words of the text in lower case, with underscores between them.** -/
theorem normalizeKey_eq (key : String) :
    normalizeKey key = String.ofList (['_'].intercalate ((Text.words key.toList).map Text.lower)) := by
  unfold normalizeKey
  rw [Text.lower_trim, joinWords_trim, Text.words_lower]

theorem normalizeKey_eq_empty {key : String} :
    normalizeKey key = "" ↔ ∀ c ∈ key.toList, Text.isBlank c = true := by
  rw [← List.all_eq_true, ← Text.isBlankText]
  constructor
  · intro hempty
    by_contra hblank
    exact normalizeKey_ne_empty (Bool.eq_false_iff.2 hblank) hempty
  · intro hblank
    rw [normalizeKey_eq, Text.words_eq_nil.2 hblank]
    rfl

/-- **Keys have one form.** A key has no white space, it is its own key, and it is empty exactly for a text of
nothing but white space. It is made of the words of the text in lower case, so that texts with the same words in
the same order have the same key, those with a capital sigma among them. -/
theorem normalizeKey_canonical (key : String) :
    (∀ c ∈ (normalizeKey key).toList, Text.isBlank c = false) ∧
      normalizeKey (normalizeKey key) = normalizeKey key ∧
      (normalizeKey key = "" ↔ ∀ c ∈ key.toList, Text.isBlank c = true) ∧
      Text.words (Text.lower key.toList) = (Text.words key.toList).map Text.lower ∧
      ∀ other : String, Text.words other.toList = Text.words key.toList →
        normalizeKey other = normalizeKey key := by
  refine ⟨fun c hc => (isKey_normalizeKey key c hc).1, normalizeKey_of_isKey (isKey_normalizeKey key),
    normalizeKey_eq_empty, Text.words_lower _, ?_⟩
  intro other hwords
  rw [normalizeKey_eq, normalizeKey_eq, hwords]

/-- Words with capital sigmas, of which only the last of a word becomes a final one, and white space of several
kinds around and between them. -/
theorem normalizeKey_canonical_sigma :
    normalizeKey "\u2003ΟΔΟΣ\x1d\tΣ:Σ " = normalizeKey "ΟΔΟΣ Σ:Σ" ∧ normalizeKey "ΟΔΟΣ Σ:Σ" = "οδος_σ:ς" :=
  ⟨(normalizeKey_canonical "ΟΔΟΣ Σ:Σ").2.2.2.2 "\u2003ΟΔΟΣ\x1d\tΣ:Σ " (by decide +kernel), by decide +kernel⟩

/-- A plain character of a key, other than the underscore, is one of the text. -/
theorem mem_of_mem_normalizeKey {key : String} {c : Char} (hc : c.toNat ≤ 96) (hne : c ≠ '_')
    (h : c ∈ (normalizeKey key).toList) : c ∈ key.toList := by
  rw [toList_normalizeKey] at h
  have hlower := (mem_joinWords h).2.resolve_left hne
  exact (Text.trim_infix _).subset (Text.mem_of_mem_lower hc hlower)

end MemoryReport

end Demotion
