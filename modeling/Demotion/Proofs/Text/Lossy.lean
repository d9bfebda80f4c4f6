import Mathlib.Tactic
import Demotion.Text.Utf8

/-!
# Decoding bytes that are cut off

Where bytes are cut off, at most one character is lost: what stands before it is decoded as if nothing were
missing, and of the character itself, if some of its bytes are left, they are read as one U+FFFD. This holds of
malformed bytes too, because a run is found malformed at its first byte that cannot belong to a character.

* `head_more`: bytes are read alike whatever follows, unless they end inside a character.
* `decodeLossy_append`: **what is decoded of the bytes before a cut.**
-/

namespace Demotion.Text.Utf8

/-- How many bytes are read at once. -/
def Head.size : Head → Nat
  | .char _ size => size
  | .malformed _ size => size

/-- The character that is put for them. -/
def Head.shown : Head → Char
  | .char c _ => c
  | .malformed _ _ => '\uFFFD'

theorem decodeLossy_cons (b : UInt8) (rest : List UInt8) :
    decodeLossy (b :: rest) = (head b rest).shown :: decodeLossy (rest.drop ((head b rest).size - 1)) := by
  rw [decodeLossy]
  cases head b rest <;> rfl

theorem width?_cases (b : UInt8) :
    width? b = none ∨ width? b = some 1 ∨ width? b = some 2 ∨ width? b = some 3 ∨ width? b = some 4 := by
  unfold width?
  split_ifs <;> simp

/-- **Bytes are read alike whatever follows**, unless they end inside a character: then all of them are left
over. -/
theorem head_more (b : UInt8) (rest more : List UInt8) :
    head b (rest ++ more) = head b rest ∧ (head b rest).size ≤ rest.length + 1 ∨
      head b rest = .malformed .unfinished (rest.length + 1) ∧ rest.length ≤ 2 := by
  rcases width?_cases b with hw | hw | hw | hw | hw
  · left
    simp [head, hw, Head.size]
  · left
    simp [head, hw, Head.size]
  · rcases rest with _ | ⟨b₂, rest⟩
    · right
      simp [head, hw]
    · left
      by_cases h₂ : isSecond b b₂ = true <;> simp [head, hw, h₂, Head.size]
  · rcases rest with _ | ⟨b₂, _ | ⟨b₃, rest⟩⟩
    · right
      simp [head, hw]
    · by_cases h₂ : isSecond b b₂ = true
      · right
        simp [head, hw, h₂]
      · left
        simp [head, hw, h₂, Head.size]
    · left
      by_cases h₂ : isSecond b b₂ = true <;> by_cases h₃ : isContinuation b₃ = true <;>
        simp [head, hw, h₂, h₃, Head.size]
  · rcases rest with _ | ⟨b₂, _ | ⟨b₃, _ | ⟨b₄, rest⟩⟩⟩
    · right
      simp [head, hw]
    · by_cases h₂ : isSecond b b₂ = true
      · right
        simp [head, hw, h₂]
      · left
        simp [head, hw, h₂, Head.size]
    · by_cases h₂ : isSecond b b₂ = true
      · by_cases h₃ : isContinuation b₃ = true
        · right
          simp [head, hw, h₂, h₃]
        · left
          simp [head, hw, h₂, h₃, Head.size]
      · left
        simp [head, hw, h₂, Head.size]
    · left
      by_cases h₂ : isSecond b b₂ = true <;> by_cases h₃ : isContinuation b₃ = true <;>
        by_cases h₄ : isContinuation b₄ = true <;> simp [head, hw, h₂, h₃, h₄, Head.size]

/-- **What is decoded of the bytes before a cut**: a part of the whole text, up to at most three bytes, which are
read as one U+FFFD. What follows in the whole text is what these bytes and those behind the cut say. -/
theorem decodeLossy_append (s t : List UInt8) :
    ∃ kept left, left <:+ s ∧ left.length ≤ 3 ∧ decodeLossy (s ++ t) = kept ++ decodeLossy (left ++ t) ∧
      decodeLossy s = kept ++ if left = [] then [] else ['\uFFFD'] := by
  -- by induction on how many bytes there are, one character at a time
  induction hn : s.length using Nat.strong_induction_on generalizing s with
  | _ n ih =>
    cases s with
    | nil => exact ⟨[], [], List.nil_suffix, Nat.zero_le _, rfl, by simp [decodeLossy]⟩
    | cons b rest =>
      rcases head_more b rest t with ⟨hsame, hsize⟩ | ⟨hunfinished, hlength⟩
      · have hlt : (rest.drop ((head b rest).size - 1)).length < n := by
          rw [← hn, List.length_drop, List.length_cons]
          omega
        obtain ⟨kept, left, hleft, hshort, hwhole, hpart⟩ := ih _ hlt _ rfl
        have hsuffix : rest.drop ((head b rest).size - 1) <:+ b :: rest :=
          (List.drop_suffix _ _).trans (List.suffix_cons b rest)
        have hdrop : (rest ++ t).drop ((head b rest).size - 1) = rest.drop ((head b rest).size - 1) ++ t :=
          List.drop_append_of_le_length (by omega)
        refine ⟨(head b rest).shown :: kept, left, hleft.trans hsuffix, hshort, ?_, ?_⟩
        · rw [List.cons_append, decodeLossy_cons, hsame, hdrop, hwhole]
          rfl
        · rw [decodeLossy_cons, hpart]
          rfl
      · -- the bytes end inside a character, and all of them are left
        refine ⟨[], b :: rest, List.suffix_refl _, ?_, rfl, ?_⟩
        · rw [List.length_cons]
          omega
        · have hnil : rest.drop (rest.length + 1 - 1) = [] := List.drop_length
          rw [decodeLossy_cons, hunfinished]
          simp only [Head.size, Head.shown, hnil]
          simp [decodeLossy]

end Demotion.Text.Utf8
