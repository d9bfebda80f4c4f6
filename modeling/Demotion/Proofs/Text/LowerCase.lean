import Mathlib.Tactic
import Demotion.Text.LowerCase

/-!
# What lower case does to a text

The lower-case form of a text is told by its characters: each is one of the text itself or one of the forms
that the table gives (`IsForm`), and none has a further lower case (`IsSmall`). No form is one of the plain
characters before the small letters, so that a text gets no new separators.

* `mem_of_mem_lower`: plain characters of the lower-case form are those of the text.
* `isSmall_of_mem_lower`: **lower case leaves no character that has a lower case.**
* `lower_of_isSmall`: a text of such characters stays as it is.
-/

namespace Demotion.Text

/-! ## The table -/

/-- The last code point among the forms of a run. -/
def CaseRun.lastForm (r : CaseRun) : Nat :=
  r.image + (r.last - r.first)

/-- The forms of a run are characters, behind the plain characters up to the grave accent, and none of them is
one of the two letters with rules of their own. -/
theorem form_valid : ∀ r ∈ caseRuns,
    96 < r.image ∧ (r.lastForm < 0xD800 ∨ 0xDFFF < r.image ∧ r.lastForm < 0x110000) ∧
    (r.lastForm < 304 ∨ 304 < r.image) ∧ (r.lastForm < 931 ∨ 931 < r.image) := by
  decide +kernel

/-- Whether a form of one run may be a letter of another. It is not if in the code points that they share capitals
and small letters take turns. -/
def CaseRun.meets (r q : CaseRun) : Bool :=
  Nat.ble q.first r.lastForm && (Nat.ble r.image q.last &&
    !(Nat.beq q.stride 2 && (Nat.beq r.stride 2 || Nat.beq r.first r.last) &&
      !Nat.beq (r.image % 2) (q.first % 2)))

/-- The forms of a run are letters of no run. -/
theorem not_meets : (caseRuns.any fun r => caseRuns.any r.meets) = false := by
  decide +kernel

theorem form_apart {r q : CaseRun} (hr : r ∈ caseRuns) (hq : q ∈ caseRuns) :
    r.lastForm < q.first ∨ q.last < r.image ∨
      q.stride = 2 ∧ (r.stride = 2 ∨ r.first = r.last) ∧ r.image % 2 ≠ q.first % 2 := by
  have hall := not_meets
  simp only [List.any_eq_false, Bool.not_eq_true] at hall
  have hmeets := hall r hr q hq
  unfold CaseRun.meets at hmeets
  simp only [← Bool.not_eq_true, Bool.and_eq_true, Bool.or_eq_true, Bool.not_eq_true', Nat.beq_eq,
    Nat.ble_eq] at hmeets
  omega

/-! ## Characters -/

/-- A form that the table or a rule gives. -/
def IsForm (d : Char) : Prop :=
  d ∈ ['i', '\u0307', 'σ', 'ς'] ∨ ∃ r ∈ caseRuns, r.image ≤ d.toNat ∧ d.toNat ≤ r.lastForm

/-- A character that has no other lower case. -/
def IsSmall (d : Char) : Prop :=
  lowerChar d = [d]

theorem IsForm.lt {d : Char} (h : IsForm d) : 96 < d.toNat := by
  rcases h with h | ⟨r, hr, hlow, -⟩
  · simp only [List.mem_cons, List.not_mem_nil, or_false] at h
    rcases h with rfl | rfl | rfl | rfl <;> decide
  · have := form_valid r hr
    omega

theorem CaseRun.has_iff {r : CaseRun} {n : Nat} :
    r.has n = true ↔ r.first ≤ n ∧ n ≤ r.last ∧ (n - r.first) % r.stride = 0 := by
  unfold CaseRun.has
  simp only [Bool.and_eq_true, decide_eq_true_eq, beq_iff_eq, and_assoc]

/-- The form that a run gives to a letter of it, as a number. -/
theorem toNat_form {r : CaseRun} (hr : r ∈ caseRuns) {n : Nat} (hn : r.has n = true) :
    (Char.ofNat (r.image + (n - r.first))).toNat = r.image + (n - r.first) := by
  have hvalid := (form_valid r hr).2.1
  have hhas := CaseRun.has_iff.1 hn
  unfold CaseRun.lastForm at hvalid
  unfold Char.ofNat
  rw [dif_pos (show (r.image + (n - r.first)).isValidChar by unfold Nat.isValidChar; omega)]
  rfl

/-- The form that a run gives to a letter of it is in no run itself. -/
theorem isSmall_form {r : CaseRun} (hr : r ∈ caseRuns) {n : Nat} (hn : r.has n = true) :
    IsSmall (Char.ofNat (r.image + (n - r.first))) := by
  have hform := toNat_form hr hn
  have hhas := CaseRun.has_iff.1 hn
  have hvalid := form_valid r hr
  unfold CaseRun.lastForm at hvalid
  have hne : ∀ c : Char, c.toNat = 304 ∨ c.toNat = 931 → Char.ofNat (r.image + (n - r.first)) ≠ c := by
    intro c hc heq
    rw [heq] at hform
    omega
  have hnone : caseRuns.find? (·.has (r.image + (n - r.first))) = none := by
    rw [List.find?_eq_none]
    intro q hq hmem
    have hmem := CaseRun.has_iff.1 hmem
    have hapart := form_apart hr hq
    unfold CaseRun.lastForm at hapart
    -- where the runs overlap, the distances within both are even
    rcases hapart with h | h | ⟨hq2, hr2 | hr1, hodd⟩
    · omega
    · omega
    · rw [hq2] at hmem
      rw [hr2] at hhas
      omega
    · rw [hq2] at hmem
      omega
  unfold IsSmall lowerChar
  rw [if_neg (hne 'İ' (Or.inl rfl)), if_neg (hne 'Σ' (Or.inr rfl)), hform, hnone]

/-- **The lower case of a character**: it keeps the character, or gives forms that have no other lower case. -/
theorem lowerChar_cases (c : Char) : lowerChar c = [c] ∨ ∀ d ∈ lowerChar c, IsForm d ∧ IsSmall d := by
  have hi : IsSmall 'i' := by unfold IsSmall; decide +kernel
  have hdot : IsSmall '\u0307' := by unfold IsSmall; decide +kernel
  have hsigma : IsSmall 'σ' := by unfold IsSmall; decide +kernel
  unfold lowerChar
  split
  · right
    intro d hd
    simp only [List.mem_cons, List.not_mem_nil, or_false] at hd
    rcases hd with rfl | rfl
    · exact ⟨Or.inl (by decide), hi⟩
    · exact ⟨Or.inl (by decide), hdot⟩
  · split
    · right
      intro d hd
      obtain rfl := List.mem_singleton.1 hd
      exact ⟨Or.inl (by decide), hsigma⟩
    · split
      · rename_i r hfind
        right
        intro d hd
        obtain rfl := List.mem_singleton.1 hd
        have hr := List.mem_of_find?_eq_some hfind
        have hn : r.has c.toNat = true := by simpa using List.find?_some hfind
        have hhas := CaseRun.has_iff.1 hn
        have hform := toNat_form hr hn
        refine ⟨Or.inr ⟨r, hr, ?_⟩, isSmall_form hr hn⟩
        rw [hform]
        unfold CaseRun.lastForm
        omega
      · exact Or.inl rfl

theorem lowerChar_ne_nil (c : Char) : lowerChar c ≠ [] := by
  unfold lowerChar
  split
  · exact List.cons_ne_nil _ _
  · split
    · exact List.cons_ne_nil _ _
    · split <;> exact List.cons_ne_nil _ _

/-- A plain capital has a lower case. -/
theorem IsSmall.not_isUpper {c : Char} (h : IsSmall c) : c.isUpper = false := by
  rw [← Bool.not_eq_true]
  intro hupper
  have hrange : 65 ≤ c.toNat ∧ c.toNat ≤ 90 := by
    unfold Char.isUpper at hupper
    simpa [UInt32.le_iff_toNat_le, ← Char.toNat_val] using hupper
  have hlatin : (⟨65, 90, 1, 97⟩ : CaseRun) ∈ caseRuns := List.mem_cons_self
  have hsome : (caseRuns.find? (·.has c.toNat)).isSome = true :=
    List.find?_isSome.2 ⟨_, hlatin, CaseRun.has_iff.2 ⟨hrange.1, hrange.2, Nat.mod_one _⟩⟩
  obtain ⟨r, hfind⟩ := Option.isSome_iff_exists.1 hsome
  have hr := List.mem_of_find?_eq_some hfind
  have hn : r.has c.toNat = true := by simpa using List.find?_some hfind
  have hne : ∀ d : Char, 90 < d.toNat → c ≠ d := by
    rintro d hd rfl
    omega
  unfold IsSmall lowerChar at h
  rw [if_neg (hne 'İ' (by decide)), if_neg (hne 'Σ' (by decide)), hfind] at h
  -- the form stands behind all capitals
  have hsame := congrArg Char.toNat (List.singleton_inj.1 h)
  rw [toNat_form hr hn] at hsame
  have := form_valid r hr
  omega

/-! ## Texts -/

/-- The characters of the lower-case form are those of the text, as far as they have no lower case, and forms. -/
theorem mem_lowerFrom {before s : List Char} {d : Char} (h : d ∈ lowerFrom before s) :
    IsSmall d ∧ (d ∈ s ∨ IsForm d) := by
  induction s generalizing before with
  | nil => cases h
  | cons c s ih =>
    rw [lowerFrom] at h
    rcases List.mem_append.1 h with h | h
    · split at h
      · obtain rfl := List.mem_singleton.1 h
        exact ⟨by unfold IsSmall; decide +kernel, Or.inr (Or.inl (by decide))⟩
      · rcases lowerChar_cases c with hsame | hforms
        · rw [hsame] at h
          obtain rfl := List.mem_singleton.1 h
          exact ⟨hsame, Or.inl List.mem_cons_self⟩
        · exact ⟨(hforms d h).2, Or.inr (hforms d h).1⟩
    · have hrest := ih h
      exact ⟨hrest.1, hrest.2.imp_left (List.mem_cons_of_mem c)⟩

/-- **Lower case leaves no character that has a lower case.** -/
theorem isSmall_of_mem_lower {s : List Char} {d : Char} (h : d ∈ lower s) : IsSmall d :=
  (mem_lowerFrom h).1

/-- A plain character of the lower-case form is one of the text. -/
theorem mem_of_mem_lower {s : List Char} {d : Char} (hd : d.toNat ≤ 96) (h : d ∈ lower s) : d ∈ s := by
  rcases (mem_lowerFrom h).2 with hmem | hform
  · exact hmem
  · have := hform.lt
    omega

theorem lowerFrom_of_isSmall {s : List Char} (h : ∀ c ∈ s, IsSmall c) (before : List Char) :
    lowerFrom before s = s := by
  induction s generalizing before with
  | nil => rfl
  | cons c s ih =>
    have hc : lowerChar c = [c] := h c List.mem_cons_self
    -- a capital sigma has a lower case
    have hsigma : c ≠ 'Σ' := by
      rintro rfl
      exact absurd hc (by decide)
    rw [lowerFrom, ih fun d hd => h d (List.mem_cons_of_mem c hd), hc]
    simp [hsigma]

/-- A text of characters that have no other lower case stays as it is. -/
theorem lower_of_isSmall {s : List Char} (h : ∀ c ∈ s, IsSmall c) : lower s = s :=
  lowerFrom_of_isSmall h []

theorem lowerFrom_ne_nil {s : List Char} (h : s ≠ []) (before : List Char) : lowerFrom before s ≠ [] := by
  cases s with
  | nil => exact absurd rfl h
  | cons c s =>
    rw [lowerFrom]
    intro hnil
    have hform := (List.append_eq_nil_iff.1 hnil).1
    split at hform
    · exact absurd hform (List.cons_ne_nil _ _)
    · exact lowerChar_ne_nil c hform

end Demotion.Text
