import Mathlib.Data.List.DropRight
import Demotion.Proofs.Text.LowerCase
import Demotion.Text.Blank

/-!
# Words of a text

The words of a text are what stands between its white space. White space is no letter, and it is not passed over
where the letters around another one are looked for, so that what becomes of a capital sigma is decided within its
word.

* `piece_induction`: induction on the pieces of a text between the characters of a class.
* `lower_append_blank`: the parts of a text around white space are put in lower case by themselves.
* `words_lower`: **lower case acts on a text word by word**, whatever letters it has.
-/

namespace Demotion.Text

/-! ## Pieces -/

/-- A text has none of the characters of a class, or a first one. -/
theorem exists_piece (p : Char → Bool) (s : List Char) :
    (∀ c ∈ s, p c = false) ∨
      ∃ piece c rest, s = piece ++ c :: rest ∧ (∀ d ∈ piece, p d = false) ∧ p c = true := by
  have hsplit := List.takeWhile_append_dropWhile (p := fun c => !p c) (l := s)
  have hpiece : ∀ c ∈ s.takeWhile (fun c => !p c), p c = false := by
    intro c hc
    simpa using List.mem_takeWhile_imp hc
  cases hdrop : s.dropWhile (fun c => !p c) with
  | nil =>
    rw [hdrop, List.append_nil] at hsplit
    exact Or.inl (hsplit ▸ hpiece)
  | cons c rest =>
    have hhead := List.head?_dropWhile_not (fun c => !p c) s
    rw [hdrop] at hhead hsplit
    exact Or.inr ⟨_, c, rest, hsplit.symm, hpiece, by simpa using hhead⟩

/-- Induction on a text piece by piece. -/
theorem piece_induction (p : Char → Bool) {motive : List Char → Prop}
    (last : ∀ piece, (∀ c ∈ piece, p c = false) → motive piece)
    (more : ∀ piece c rest, (∀ d ∈ piece, p d = false) → p c = true → motive rest → motive (piece ++ c :: rest))
    (s : List Char) : motive s := by
  induction hn : s.length using Nat.strong_induction_on generalizing s with
  | _ n ih =>
    rcases exists_piece p s with hs | ⟨piece, c, rest, rfl, hpiece, hc⟩
    · exact last s hs
    · refine more piece c rest hpiece hc (ih rest.length ?_ rest rfl)
      rw [← hn, List.length_append, List.length_cons]
      omega

/-! ## White space and letters -/

/-- White space is no letter and is not passed over in looking for one. -/
theorem blank_apart : ∀ b ∈ blankRanges, ∀ r ∈ caseIgnorableRanges ++ casedRanges, b.2 < r.1 ∨ r.2 < b.1 := by
  decide +kernel

/-- White space has no lower case and is none. -/
theorem blank_caseless : ∀ b ∈ blankRanges, ∀ r ∈ caseRuns,
    (b.2 < r.first ∨ r.last < b.1) ∧ (b.2 < r.image ∨ r.lastForm < b.1) := by
  decide +kernel

theorem inRanges_eq_true {ranges : List (Nat × Nat)} {c : Char} :
    inRanges ranges c = true ↔ ∃ r ∈ ranges, r.1 ≤ c.toNat ∧ c.toNat ≤ r.2 := by
  unfold inRanges
  simp only [List.any_eq_true, Bool.and_eq_true, decide_eq_true_eq]

section Blank

variable {c : Char} (hc : isBlank c = true)

include hc

theorem not_inRanges_of_isBlank {ranges : List (Nat × Nat)} (h : ranges ⊆ caseIgnorableRanges ++ casedRanges) :
    inRanges ranges c = false := by
  obtain ⟨b, hb, hin⟩ := inRanges_eq_true.1 hc
  rw [← Bool.not_eq_true, inRanges_eq_true]
  rintro ⟨r, hr, hin'⟩
  have := blank_apart b hb r (h hr)
  omega

theorem not_isCaseIgnorable_of_isBlank : isCaseIgnorable c = false :=
  not_inRanges_of_isBlank hc (List.subset_append_left _ _)

theorem not_isCased_of_isBlank : isCased c = false :=
  not_inRanges_of_isBlank hc (List.subset_append_right _ _)

theorem isSmall_of_isBlank : IsSmall c := by
  obtain ⟨b, hb, hin⟩ := inRanges_eq_true.1 hc
  have hne : ∀ d : Char, isBlank d = false → c ≠ d := by
    rintro d hd rfl
    rw [hc] at hd
    cases hd
  have hnone : caseRuns.find? (·.has c.toNat) = none := by
    rw [List.find?_eq_none]
    intro r hr hhas
    have hhas := CaseRun.has_iff.1 hhas
    have := (blank_caseless b hb r hr).1
    omega
  unfold IsSmall lowerChar
  rw [if_neg (hne 'İ' (by decide)), if_neg (hne 'Σ' (by decide)), hnone]

end Blank

/-- The lower case of a letter is no white space. -/
theorem IsForm.not_isBlank {d : Char} (h : IsForm d) : isBlank d = false := by
  rcases h with h | ⟨r, hr, hlow, hhigh⟩
  · simp only [List.mem_cons, List.not_mem_nil, or_false] at h
    rcases h with rfl | rfl | rfl | rfl <;> decide
  · rw [← Bool.not_eq_true]
    intro hd
    obtain ⟨b, hb, hin⟩ := inRanges_eq_true.1 hd
    have := (blank_caseless b hb r hr).2
    omega

theorem not_isBlank_of_mem_lower {s : List Char} (h : ∀ c ∈ s, isBlank c = false) {d : Char} (hd : d ∈ lower s) :
    isBlank d = false := by
  rcases (mem_lowerFrom hd).2 with hmem | hform
  · exact h d hmem
  · exact hform.not_isBlank

/-! ## Lower case around white space -/

section Around

variable {c : Char} (hc : isBlank c = true)

include hc

/-- Looking for a letter ends at white space. -/
theorem startsCased_append_blank (near far : List Char) : startsCased (near ++ c :: far) = startsCased near := by
  have hpassed := not_isCaseIgnorable_of_isBlank hc
  have hcased := not_isCased_of_isBlank hc
  induction near with
  | nil => simp [startsCased, hpassed, hcased]
  | cons d near ih =>
    unfold startsCased at ih ⊢
    by_cases hd : isCaseIgnorable d = true
    · rw [List.cons_append, List.dropWhile_cons_of_pos hd, List.dropWhile_cons_of_pos hd, ih]
    · rw [List.cons_append, List.dropWhile_cons_of_neg hd, List.dropWhile_cons_of_neg hd]

/-- What has been passed before white space makes no difference. -/
theorem lowerFrom_append_blank (near far s : List Char) : lowerFrom (near ++ c :: far) s = lowerFrom near s := by
  induction s generalizing near with
  | nil => rfl
  | cons d s ih =>
    have hsigma : isFinalSigma (near ++ c :: far) s = isFinalSigma near s := by
      unfold isFinalSigma
      rw [startsCased_append_blank hc]
    have hrest : lowerFrom (d :: (near ++ c :: far)) s = lowerFrom (d :: near) s := ih (d :: near)
    rw [lowerFrom, lowerFrom, hsigma, hrest]

theorem lowerFrom_blank (before s rest : List Char) :
    lowerFrom before (s ++ c :: rest) = lowerFrom before s ++ c :: lower rest := by
  induction s generalizing before with
  | nil =>
    have hsmall : lowerChar c = [c] := isSmall_of_isBlank hc
    have hsigma : c ≠ 'Σ' := by
      rintro rfl
      exact absurd hc (by decide)
    have hrest : lowerFrom (c :: before) rest = lower rest := lowerFrom_append_blank hc [] before rest
    rw [List.nil_append, lowerFrom.eq_def]
    simp only [hrest, hsmall, hsigma, decide_false, Bool.false_and, Bool.false_eq_true, if_false]
    rfl
  | cons d s ih =>
    have hsigma : isFinalSigma before (s ++ c :: rest) = isFinalSigma before s := by
      unfold isFinalSigma
      rw [startsCased_append_blank hc]
    rw [List.cons_append, lowerFrom, lowerFrom, ih (d :: before), hsigma, List.append_assoc]

/-- **The parts of a text around white space are put in lower case by themselves.** -/
theorem lower_append_blank (s rest : List Char) : lower (s ++ c :: rest) = lower s ++ c :: lower rest :=
  lowerFrom_blank hc [] s rest

theorem lower_cons_blank (s : List Char) : lower (c :: s) = c :: lower s :=
  lower_append_blank hc [] s

theorem lower_concat_blank (s : List Char) : lower (s ++ [c]) = lower s ++ [c] :=
  lower_append_blank hc s []

end Around

/-- A character that is no white space becomes some that are none. -/
theorem exists_form {c : Char} (hc : isBlank c = false) (before s : List Char) :
    ∃ form, form ≠ [] ∧ (∀ d ∈ form, isBlank d = false) ∧
      lowerFrom before (c :: s) = form ++ lowerFrom (c :: before) s := by
  rw [lowerFrom]
  split
  · refine ⟨_, List.cons_ne_nil _ _, fun d hd => ?_, rfl⟩
    obtain rfl := List.mem_singleton.1 hd
    decide
  · refine ⟨_, lowerChar_ne_nil c, fun d hd => ?_, rfl⟩
    rcases lowerChar_cases c with hsame | hforms
    · rw [hsame] at hd
      obtain rfl := List.mem_singleton.1 hd
      exact hc
    · exact (hforms d hd).1.not_isBlank

theorem lower_dropWhile (s : List Char) : lower (s.dropWhile isBlank) = (lower s).dropWhile isBlank := by
  induction s with
  | nil => rfl
  | cons c s ih =>
    cases hc : isBlank c with
    | true => rw [List.dropWhile_cons_of_pos hc, lower_cons_blank hc, List.dropWhile_cons_of_pos hc, ih]
    | false =>
      obtain ⟨form, hne, hform, heq⟩ := exists_form hc [] s
      obtain ⟨d, form, rfl⟩ := List.exists_cons_of_ne_nil hne
      have hd : ¬isBlank d = true := by simp [hform d List.mem_cons_self]
      have hself : (lower (c :: s)).dropWhile isBlank = lower (c :: s) := by
        unfold lower
        rw [heq, List.cons_append, List.dropWhile_cons_of_neg hd]
      rw [List.dropWhile_cons_of_neg (by simp [hc]), hself]

/-- At the end of a lower-case form stands what the last character became. -/
theorem exists_form_concat {c : Char} (hc : isBlank c = false) (before s : List Char) :
    ∃ front form, form ≠ [] ∧ (∀ d ∈ form, isBlank d = false) ∧ lowerFrom before (s ++ [c]) = front ++ form := by
  induction s generalizing before with
  | nil =>
    obtain ⟨form, hne, hform, heq⟩ := exists_form hc before []
    exact ⟨[], form, hne, hform, by rw [List.nil_append, heq, lowerFrom, List.append_nil, List.nil_append]⟩
  | cons d s ih =>
    obtain ⟨front, form, hne, hform, heq⟩ := ih (d :: before)
    rw [List.cons_append, lowerFrom, heq, ← List.append_assoc]
    exact ⟨_, form, hne, hform, rfl⟩

theorem lower_rdropWhile (s : List Char) : lower (s.rdropWhile isBlank) = (lower s).rdropWhile isBlank := by
  induction s using List.reverseRecOn with
  | nil => rfl
  | append_singleton s c ih =>
    cases hc : isBlank c with
    | true =>
      rw [List.rdropWhile_concat_pos _ _ _ hc, lower_concat_blank hc, List.rdropWhile_concat_pos _ _ _ hc, ih]
    | false =>
      obtain ⟨front, form, hne, hform, heq⟩ := exists_form_concat hc [] s
      have hself : (lower (s ++ [c])).rdropWhile isBlank = lower (s ++ [c]) := by
        rw [List.rdropWhile_eq_self_iff]
        intro hnil
        have hlast := List.getLast_mem hne
        simp only [lower, heq, List.getLast_append_of_ne_nil _ hne, hform _ hlast, Bool.false_eq_true,
          not_false_eq_true]
      rw [List.rdropWhile_concat_neg _ _ _ (by simp [hc]), hself]

/-! ## Words -/

/-- The words of a text, between its white space. -/
def words (s : List Char) : List (List Char) :=
  (s.splitOnP isBlank).filter (· ≠ [])

theorem words_append_blank {c : Char} (hc : isBlank c = true) (s rest : List Char) :
    words (s ++ c :: rest) = words s ++ words rest := by
  unfold words
  rw [List.splitOnP_append_cons s rest hc, List.filter_append]

/-- A text without white space is one word, or nothing. -/
theorem words_of_not_blank {s : List Char} (h : ∀ c ∈ s, isBlank c = false) : words s = [s].filter (· ≠ []) := by
  unfold words
  rw [List.splitOnP_eq_singleton h]

theorem words_eq_nil {s : List Char} : words s = [] ↔ isBlankText s = true := by
  unfold isBlankText
  induction s using piece_induction isBlank with
  | last s h =>
    rw [words_of_not_blank h]
    cases s with
    | nil => simp
    | cons c s => simp [h c List.mem_cons_self]
  | more piece c rest h hc ih =>
    rw [words_append_blank hc, List.append_eq_nil_iff, ih, words_of_not_blank h]
    cases piece with
    | nil => simp [hc]
    | cons d piece => simp [h d List.mem_cons_self]

/-- **Lower case acts on a text word by word**, whatever letters it has. -/
theorem words_lower (s : List Char) : words (lower s) = (words s).map lower := by
  -- a piece without white space is one word before and after
  have hpiece : ∀ piece, (∀ c ∈ piece, isBlank c = false) → words (lower piece) = (words piece).map lower := by
    intro piece h
    rw [words_of_not_blank h, words_of_not_blank fun d hd => not_isBlank_of_mem_lower h hd]
    cases piece with
    | nil => rfl
    | cons c piece =>
      have hne : lower (c :: piece) ≠ [] := lowerFrom_ne_nil (List.cons_ne_nil _ _) []
      simp [hne]
  induction s using piece_induction isBlank with
  | last s h => exact hpiece s h
  | more piece c rest h hc ih =>
    rw [lower_append_blank hc, words_append_blank hc, words_append_blank hc, List.map_append, hpiece piece h, ih]

end Demotion.Text
