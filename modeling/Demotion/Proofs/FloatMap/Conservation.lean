import Demotion.Proofs.FloatMap.Document

/-!
# Mending leaves JSON as it is

A text that is JSON already has no bare words, so that the walk over it copies everything, whatever stands in
its strings. Only no-break spaces become spaces; in JSON they stand in strings only.

* `Copied`: mending copies a text up to some point of it. Each rule of the grammar keeps this: strings
  (`copied_literal`), members with their colons (`copied_member`), and values by induction on how deep
  containers may stand (`copied_value`).
* `sanitize_of_read`: **of a text that a JSON reader takes, mending changes nothing but no-break spaces.**
-/

namespace Demotion.FloatMap

open Json (Style)
open Json.Style (plain)

/-! ## What mending copies -/

/-- Mending copies `s` as far as `rest`, with spaces for no-break spaces. -/
def Copied (s rest : List Char) : Prop :=
  ∃ front, s = front ++ rest ∧ repair s = front.map plainSpace ++ repair rest

theorem Copied.refl (s : List Char) : Copied s s := ⟨[], rfl, rfl⟩

theorem Copied.trans {s t rest : List Char} (h : Copied s t) (h' : Copied t rest) : Copied s rest := by
  obtain ⟨front, rfl, hfront⟩ := h
  obtain ⟨front', rfl, hfront'⟩ := h'
  refine ⟨front ++ front', (List.append_assoc _ _ _).symm, ?_⟩
  rw [hfront, hfront', List.map_append, List.append_assoc]

theorem copied_append {w : List Char} (hw : ∀ c ∈ w, IsSolid c) (s : List Char) : Copied (w ++ s) s := by
  refine ⟨w, rfl, ?_⟩
  rw [repair_append hw, map_plainSpace_self fun c hc => (hw c hc).2.2]

theorem copied_cons {c : Char} (hc : IsSolid c) (s : List Char) : Copied (c :: s) s :=
  copied_append (w := [c]) (List.forall_mem_singleton.2 hc) s

/-! ## Strings -/

/-- The end of a literal is found in the same place with spaces for no-break spaces. -/
theorem splitLiteral?_map (s : List Char) :
    splitLiteral? (s.map plainSpace) =
      (splitLiteral? s).map fun r => (r.1.map plainSpace, r.2.map plainSpace) := by
  fun_induction splitLiteral? s with
  | case1 => rfl
  | case2 rest => rfl
  | case3 rest => rfl
  | case4 c rest hc ih =>
    have hc' : plainSpace c ≠ '\n' := fun h => hc (eq_of_plainSpace h (by decide))
    rw [List.map_cons, List.map_cons, plainSpace_eq_self (by decide), splitLiteral?_escape hc', ih,
      Option.map_map, Option.map_map]
    rfl
  | case5 c rest hq hb ih =>
    by_cases hc : c = '\\'
    · -- a backslash alone at the end of the text
      subst hc
      cases rest with
      | nil => rfl
      | cons d rest => exact absurd rfl (hb d rest rfl)
    · have hq' : plainSpace c ≠ '"' := fun h => hq (eq_of_plainSpace h (by decide))
      have hc' : plainSpace c ≠ '\\' := fun h => hc (eq_of_plainSpace h (by decide))
      rw [List.map_cons, splitLiteral?_cons hq' hc', ih, Option.map_map, Option.map_map]
      rfl

theorem copied_literal {s rest : List Char} {p : Content} (h : plain.Literal s p rest) :
    Copied ('"' :: s) rest := by
  obtain ⟨literal, hl, -⟩ := splitLiteral?_of_literal h
  obtain rfl := splitLiteral?_append hl
  have hmapped := splitLiteral?_map (literal ++ rest)
  rw [hl, Option.map_some] at hmapped
  refine ⟨'"' :: literal, rfl, ?_⟩
  unfold repair
  rw [List.map_cons, plainSpace_eq_self (by decide), replaceWords_literal hmapped]
  rfl

/-! ## The rules of the grammar -/

theorem plainSpace_of_isSpace {c : Char} (h : Json.isSpace c = true) : plainSpace c = c ∧ IsPassed c := by
  refine ⟨plainSpace_eq_self ?_, isPassed_of_isSpace h⟩
  rintro rfl
  exact absurd h (by decide)

theorem copied_blanks {s rest : List Char} (h : plain.Blanks s rest) : Copied s rest := by
  induction h with
  | none => exact Copied.refl _
  | @more c s rest hc _ ih =>
    obtain ⟨hself, hpassed⟩ := plainSpace_of_isSpace hc
    refine Copied.trans ⟨[c], rfl, ?_⟩ ih
    rw [repair_cons (by rwa [hself])]
    rfl

theorem copied_scalar {s rest : List Char} {v : Json} (h : plain.Scalar s v rest) : Copied s rest := by
  cases h with
  | null => exact copied_append (forall_mem_of_all (by decide)) _
  | true => exact copied_append (forall_mem_of_all (by decide)) _
  | false => exact copied_append (forall_mem_of_all (by decide)) _
  | constant hw => exact copied_append (isSolid_of_constant hw) _
  | number hw => exact copied_append (isSolid_of_isNumber hw) _
  | string h => exact copied_literal h

/-- What counts as white space in JSON does so in a float map. -/
theorem style_blanks {s rest : List Char} (h : plain.Blanks s rest) : style.Blanks s rest := by
  induction h with
  | none => exact .none
  | more hc _ ih =>
    have hc' : Json.isSpace _ = true := hc
    refine .more ?_ ih
    simp only [style, hc', Bool.true_or]

section Containers

variable {α : Type} {rule : List Char → α → List Char → Prop} {close : Char}

theorem copied_items (hitem : ∀ {s a rest}, rule s a rest → Copied s rest) (hclose : IsSolid close)
    {s rest : List Char} {as : List α} (h : plain.Items rule close s as rest) : Copied s rest := by
  induction h with
  | last h₁ ha h₂ =>
    exact (copied_blanks h₁).trans ((hitem ha).trans ((copied_blanks h₂).trans (copied_cons hclose _)))
  | more h₁ ha h₂ _ ih =>
    have hcomma : Copied _ _ := (copied_blanks h₂).trans (copied_cons (by decide) _)
    exact (copied_blanks h₁).trans ((hitem ha).trans (hcomma.trans ih))

theorem copied_container (hitem : ∀ {s a rest}, rule s a rest → Copied s rest) (hclose : IsSolid close)
    {s rest : List Char} {as : List α} (h : plain.Container rule close s as rest) : Copied s rest := by
  cases h with
  | empty h => exact (copied_blanks h).trans (copied_cons hclose _)
  | items h => exact copied_items hitem hclose h

end Containers

theorem copied_member {depth : Nat} (hvalue : ∀ {s v rest}, plain.Value depth s v rest → Copied s rest)
    {s rest : List Char} {m : Content × Json} (h : plain.Member (plain.Value depth) s m rest) :
    Copied s rest := by
  cases h with
  | bare _ _ hv => exact hv.elim
  | @value s s₁ s₂ s₃ _ name v hn hc hb hv =>
    have hcolon : Copied (':' :: s₂) s₂ := by
      refine ⟨[':'], rfl, ?_⟩
      unfold repair
      rw [List.map_cons, plainSpace_eq_self (by decide),
        replaceWords_colon (splitBareWord?_value (style_blanks hb) hv)]
      rfl
    have hname : Copied ('"' :: s) s₂ := (copied_literal hn).trans ((copied_blanks hc).trans hcolon)
    exact hname.trans ((copied_blanks hb).trans (hvalue hv))

theorem copied_value {depth : Nat} {s rest : List Char} {v : Json} (h : plain.Value depth s v rest) :
    Copied s rest := by
  induction depth generalizing s rest v with
  | zero => exact copied_scalar h
  | succ depth ih =>
    cases h with
    | scalar h => exact copied_scalar h
    | array h => exact (copied_cons (by decide) _).trans (copied_container ih (by decide) h)
    | object h => exact (copied_cons (by decide) _).trans (copied_container (copied_member ih) (by decide) h)

/-! ## Whole texts -/

theorem repair_of_text {depth : Nat} {raw : List Char} {v : Json} (h : plain.Text depth raw v) :
    repair raw = raw.map plainSpace := by
  obtain ⟨s₁, s₂, hb, hv, he⟩ := h
  have hcopied : Copied raw [] := (copied_blanks hb).trans ((copied_value hv).trans (copied_blanks he))
  obtain ⟨front, hraw, hrepair⟩ := hcopied
  have hnil : repair [] = [] := replaceWords_nil
  rw [List.append_nil] at hraw
  rw [hrepair, hnil, List.append_nil, hraw]

/-- **Of a text that a JSON reader takes, mending changes nothing but no-break spaces.** It is the text with a
space for each of them, whatever stands in its strings, and the text itself if there is none. -/
theorem sanitize_of_read {depth : Nat} {limit : Option Nat} {raw : String} {v : Json}
    (h : Json.read depth limit raw = .ok v) :
    (sanitize raw = raw.map fun c => if c = '\u00A0' then ' ' else c) ∧
      ('\u00A0' ∉ raw.toList → sanitize raw = raw) := by
  have hrepair := repair_of_text (Json.text_of_read h)
  refine ⟨?_, fun hnone => ?_⟩
  · apply String.toList_injective
    rw [sanitize, String.toList_ofList, String.toList_map, hrepair]
    rfl
  · have hself : raw.toList.map plainSpace = raw.toList :=
      map_plainSpace_self fun c hc hnbsp => hnone (hnbsp ▸ hc)
    rw [sanitize, hrepair, hself, String.ofList_toList]

/-- Strings that look like bare words and like the ends of strings, with a no-break space or another character
in one of them. -/
def quotedWords (c : Char) : String :=
  String.ofList ("\x7b\"\\\": inf,\" : [\": nan\x7d\", \": -inf\\\\\", \"".toList ++
    c :: "\"], \"n\": -0.5e+3 \x7d".toList)

theorem sanitize_of_read_quotedWords :
    ((∃ v, Json.read 1000 none (quotedWords '\u00A0') = .ok v) ∧
        sanitize (quotedWords '\u00A0') = (quotedWords '\u00A0').map fun c => if c = '\u00A0' then ' ' else c) ∧
      (∃ v, Json.read 1000 (some Integer.maxDigits) (quotedWords ':') = .ok v) ∧
        '\u00A0' ∉ (quotedWords ':').toList ∧ sanitize (quotedWords ':') = quotedWords ':' := by
  have hread : ∀ {limit raw}, (Json.read 1000 limit raw).toOption.isSome = true →
      ∃ v, Json.read 1000 limit raw = .ok v := by
    intro limit raw h
    cases hraw : Json.read 1000 limit raw with
    | error e => rw [hraw] at h; cases h
    | ok v => exact ⟨v, rfl⟩
  obtain ⟨v, hv⟩ : ∃ v, Json.read 1000 none (quotedWords '\u00A0') = .ok v := hread (by decide +kernel)
  obtain ⟨w, hw⟩ : ∃ w, Json.read 1000 (some Integer.maxDigits) (quotedWords ':') = .ok w :=
    hread (by decide +kernel)
  have hnone : '\u00A0' ∉ (quotedWords ':').toList := by decide +kernel
  exact ⟨⟨⟨v, hv⟩, (sanitize_of_read hv).1⟩, ⟨w, hw⟩, hnone, (sanitize_of_read hw).2 hnone⟩

end Demotion.FloatMap
