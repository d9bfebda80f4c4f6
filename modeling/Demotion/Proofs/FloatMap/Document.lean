import Demotion.FloatMap.Basic
import Demotion.Proofs.FloatMap.Repair
import Demotion.Proofs.Json.Reading

/-!
# What a float map may look like

`Document` is the format that float maps are written in: JSON in which no-break spaces count as white
space, and in which `inf`, `-inf` or `nan` may stand as the value of a member. Mending such a text makes
JSON of it, and mending any other text does not.

* `Carried`: a rule of the format and the rule of JSON that mending makes of it. Forwards, what the first
  allows the second allows of the mended text. Backwards, what the second finds in a mended text is the
  image of what the first finds in the text as it was.
* `value_carried`: the two rules for values, by induction on how deep containers may stand.
* `read_sanitize_iff`: **the mended text is read exactly if the text is a document**, and then as the value
  that the document has.
-/

namespace Demotion.FloatMap

open Json (Style Follows)

/-! ## The format -/

/-- The bare words, each with the name it is read as. -/
def wordNames : List (String × String) :=
  [("inf", "Infinity"), ("-inf", "-Infinity"), ("nan", "NaN")]

/-- A bare word after a colon. Only spaces, tabs and no-break spaces may stand before it. -/
inductive BareWord : List Char → Json → List Char → Prop where
  | mk {gap rest : List Char} {word name : String}
      (hgap : ∀ c ∈ gap, c = ' ' ∨ c = '\t' ∨ c = '\u00A0') (hw : (word, name) ∈ wordNames) :
      BareWord (gap ++ (word.toList ++ rest)) (.text name) rest

/-- The way in which float maps are written. A no-break space in a string stands for a space. -/
def style : Style where
  isSpace c := Json.isSpace c || c = '\u00A0'
  shown c := if c = '\u00A0' then ' ' else c
  bare := BareWord

/-- A text in the format of float maps with containers at most `depth` deep, and the value it has. -/
def Document (depth : Nat) (raw : List Char) (v : Json) : Prop :=
  style.Text depth raw v

/-! ## Characters under mending -/

theorem plainSpace_eq_self {c : Char} (h : c ≠ '\u00A0') : plainSpace c = c := by
  unfold plainSpace; rw [if_neg h]

/-- Only spaces may have been something else. -/
theorem eq_of_plainSpace {c d : Char} (h : plainSpace c = d) (hd : d ≠ ' ') : c = d := by
  unfold plainSpace at h
  split at h
  · exact absurd h.symm hd
  · exact h

theorem map_plainSpace_self {w : List Char} (hw : ∀ c ∈ w, c ≠ '\u00A0') : w.map plainSpace = w :=
  (List.map_congr_left fun c hc => plainSpace_eq_self (hw c hc)).trans (List.map_id w)

theorem repair_cons {c : Char} (hc : IsPassed (plainSpace c)) (s : List Char) :
    repair (c :: s) = plainSpace c :: repair s := by
  unfold repair
  rw [List.map_cons, replaceWords_cons hc.1 hc.2]

/-- A character that mending leaves alone and makes of no other. -/
def IsSolid (c : Char) : Prop := IsPassed c ∧ c ≠ ' ' ∧ c ≠ '\u00A0'

instance : DecidablePred IsSolid := fun c => inferInstanceAs (Decidable (IsPassed c ∧ c ≠ ' ' ∧ c ≠ '\u00A0'))

theorem repair_append {w : List Char} (hw : ∀ c ∈ w, IsSolid c) (s : List Char) :
    repair (w ++ s) = w ++ repair s := by
  unfold repair
  rw [List.map_append, map_plainSpace_self fun c hc => (hw c hc).2.2, replaceWords_append fun c hc => (hw c hc).1]

theorem eq_cons_of_repair {x u : List Char} {c : Char} (hc : IsPassed c) (h : repair x = c :: u) :
    ∃ d y, x = d :: y ∧ plainSpace d = c ∧ u = repair y := by
  obtain ⟨r, hr, hu⟩ := eq_append_of_replaceWords (w := [c]) (by simpa using hc) h
  obtain ⟨d, y, rfl, hd, rfl⟩ := List.map_eq_cons_iff.1 hr
  exact ⟨d, y, rfl, hd, hu⟩

/-- A solid character of a mended text was there before. -/
theorem eq_solid_of_repair {x u : List Char} {c : Char} (hc : IsSolid c) (h : repair x = c :: u) :
    ∃ y, x = c :: y ∧ u = repair y := by
  obtain ⟨d, y, rfl, hd, hu⟩ := eq_cons_of_repair hc.1 h
  obtain rfl := eq_of_plainSpace hd hc.2.1
  exact ⟨y, rfl, hu⟩

theorem eq_append_of_repair {w x u : List Char} (hw : ∀ c ∈ w, IsSolid c)
    (h : repair x = w ++ u) : ∃ y, x = w ++ y ∧ u = repair y := by
  induction w generalizing x with
  | nil => exact ⟨x, rfl, h.symm⟩
  | cons c w ih =>
    obtain ⟨y, rfl, hu⟩ := eq_solid_of_repair (hw c List.mem_cons_self) h
    obtain ⟨z, rfl, hz⟩ := ih (fun e he => hw e (List.mem_cons_of_mem _ he)) hu.symm
    exact ⟨z, rfl, hz⟩

theorem head?_repair (x : List Char) : (repair x).head? = x.head?.map plainSpace := by
  unfold repair
  rw [head?_replaceWords, List.head?_map]

/-! ## White space -/

theorem plainSpace_isSpace {c : Char} (h : style.isSpace c = true) :
    Json.isSpace (plainSpace c) = true ∧ IsPassed (plainSpace c) := by
  simp only [style, Json.isSpace, Bool.or_eq_true, decide_eq_true_eq] at h
  unfold IsPassed
  rcases h with (((rfl | rfl) | rfl) | rfl) | rfl <;> decide

theorem style_isSpace {c : Char} (h : Json.isSpace (plainSpace c) = true) : style.isSpace c = true := by
  unfold plainSpace at h
  split at h
  · rename_i hc; subst hc; decide
  · simp only [style, h, Bool.true_or]

theorem isPassed_of_isSpace {c : Char} (h : Json.isSpace c = true) : IsPassed c := by
  simp only [Json.isSpace, Bool.or_eq_true, decide_eq_true_eq] at h
  unfold IsPassed
  rcases h with ((rfl | rfl) | rfl) | rfl <;> decide

theorem repair_blanks {s rest : List Char} (h : style.Blanks s rest) :
    Style.plain.Blanks (repair s) (repair rest) := by
  induction h with
  | none => exact .none
  | more hc _ ih =>
    obtain ⟨hspace, hpassed⟩ := plainSpace_isSpace hc
    rw [repair_cons hpassed]
    exact .more hspace ih

theorem blanks_of_repair {x s u : List Char} (hx : repair x = s) (h : Style.plain.Blanks s u) :
    ∃ y, u = repair y ∧ style.Blanks x y := by
  induction h generalizing x with
  | none => exact ⟨x, hx.symm, .none⟩
  | more hc _ ih =>
    obtain ⟨d, y, rfl, rfl, hy⟩ := eq_cons_of_repair (isPassed_of_isSpace hc) hx
    obtain ⟨z, hz, hblanks⟩ := ih hy.symm
    exact ⟨z, hz, .more (style_isSpace hc) hblanks⟩

/-! ## Strings -/

theorem ne_of_mem_escapes {e c d : Char} (he : (e, c) ∈ Json.escapes)
    (hd : d ∉ ['"', '\\', '/', 'b', 'f', 'n', 'r', 't']) : e ≠ d := by
  rintro rfl
  simp only [Json.escapes, List.mem_cons, List.not_mem_nil, or_false, Prod.mk.injEq] at he hd
  tauto

/-- A string of JSON is a literal for the walk, and stays one whatever follows it. -/
theorem splitLiteral?_of_literal {s rest : List Char} {p : Content} (h : Style.plain.Literal s p rest) :
    ∃ literal, splitLiteral? s = some (literal, rest) ∧ ∀ u, Style.plain.Literal (literal ++ u) p u := by
  -- the digits of a code point are passed one by one
  have hcode : ∀ {a b c d : Char} {n : Nat} {t literal u : List Char}, Json.IsHex a b c d n →
      splitLiteral? t = some (literal, u) →
      splitLiteral? ('\\' :: 'u' :: a :: b :: c :: d :: t) =
        some ('\\' :: 'u' :: a :: b :: c :: d :: literal, u) := by
    intro a b c d n t literal u hn ht
    obtain ⟨ha, hb, hc, hd⟩ := hn
    rw [splitLiteral?_escape (by decide), splitLiteral?_cons (ha.ne (by decide)) (ha.ne (by decide)),
      splitLiteral?_cons (hb.ne (by decide)) (hb.ne (by decide)),
      splitLiteral?_cons (hc.ne (by decide)) (hc.ne (by decide)),
      splitLiteral?_cons (hd.ne (by decide)) (hd.ne (by decide)), ht]
    rfl
  induction h with
  | close => exact ⟨['"'], rfl, fun u => .close⟩
  | char hq hb hc _ ih =>
    obtain ⟨literal, hl, hu⟩ := ih
    refine ⟨_ :: literal, ?_, fun u => .char hq hb hc (hu u)⟩
    rw [splitLiteral?_cons hq hb, hl]
    rfl
  | escape he _ ih =>
    obtain ⟨literal, hl, hu⟩ := ih
    refine ⟨'\\' :: _ :: literal, ?_, fun u => .escape he (hu u)⟩
    rw [splitLiteral?_escape (ne_of_mem_escapes he (by decide)), hl]
    rfl
  | code hn hh hl _ ih =>
    obtain ⟨literal, hlit, hu⟩ := ih
    exact ⟨_, hcode hn hlit, fun u => .code hn hh hl (hu u)⟩
  | pair hm hh hn hl _ ih =>
    obtain ⟨literal, hlit, hu⟩ := ih
    exact ⟨_, hcode hm (hcode hn hlit), fun u => .pair hm hh hn hl (hu u)⟩
  | half hn hs halone _ ih =>
    obtain ⟨literal, hlit, hu⟩ := ih
    exact ⟨_, hcode hn hlit, fun u => .half hn hs halone (hu u)⟩

theorem plainSpace_hex {a b c d : Char} {n : Nat} (h : Json.IsHex a b c d n) :
    plainSpace a = a ∧ plainSpace b = b ∧ plainSpace c = c ∧ plainSpace d = d := by
  obtain ⟨ha, hb, hc, hd⟩ := h
  exact ⟨plainSpace_eq_self (ha.ne (by decide)), plainSpace_eq_self (hb.ne (by decide)),
    plainSpace_eq_self (hc.ne (by decide)), plainSpace_eq_self (hd.ne (by decide))⟩

/-- A string of the format, with spaces for its no-break spaces, is a string of JSON. -/
theorem literal_map {s rest : List Char} {p : Content} (h : style.Literal s p rest) :
    Style.plain.Literal (s.map plainSpace) p (rest.map plainSpace) := by
  induction h with
  | close => exact .close
  | @char c s rest p hq hb hc _ ih =>
    have hchar : plainSpace c ≠ '"' ∧ plainSpace c ≠ '\\' ∧ ' ' ≤ plainSpace c := by
      unfold plainSpace
      split
      · decide
      · exact ⟨hq, hb, hc⟩
    exact .char hchar.1 hchar.2.1 hchar.2.2 ih
  | escape he _ ih =>
    rw [List.map_cons, List.map_cons, plainSpace_eq_self (ne_of_mem_escapes he (by decide))]
    exact .escape he ih
  | code hn hh hl _ ih =>
    obtain ⟨ha, hb, hc, hd⟩ := plainSpace_hex hn
    simp only [List.map_cons, ha, hb, hc, hd]
    exact .code hn hh hl ih
  | pair hm hh hn hl _ ih =>
    obtain ⟨ha, hb, hc, hd⟩ := plainSpace_hex hm
    obtain ⟨ha', hb', hc', hd'⟩ := plainSpace_hex hn
    simp only [List.map_cons, ha, hb, hc, hd, ha', hb', hc', hd']
    exact .pair hm hh hn hl ih
  | half hn hs halone _ ih =>
    obtain ⟨ha, hb, hc, hd⟩ := plainSpace_hex hn
    simp only [List.map_cons, ha, hb, hc, hd]
    exact .half hn hs halone ih

theorem map_plainSpace_eq_cons {x u : List Char} {c : Char} (hc : c ≠ ' ') (h : x.map plainSpace = c :: u) :
    ∃ y, x = c :: y ∧ y.map plainSpace = u := by
  obtain ⟨d, y, rfl, hd, hy⟩ := List.map_eq_cons_iff.1 h
  obtain rfl := eq_of_plainSpace hd hc
  exact ⟨y, rfl, hy⟩

theorem map_plainSpace_eq_code {x u : List Char} {a b c d : Char} {n : Nat} (hn : Json.IsHex a b c d n)
    (h : x.map plainSpace = '\\' :: 'u' :: a :: b :: c :: d :: u) :
    ∃ y, x = '\\' :: 'u' :: a :: b :: c :: d :: y ∧ y.map plainSpace = u := by
  obtain ⟨ha, hb, hc, hd⟩ := hn
  obtain ⟨x₁, rfl, h₁⟩ := map_plainSpace_eq_cons (by decide) h
  obtain ⟨x₂, rfl, h₂⟩ := map_plainSpace_eq_cons (by decide) h₁
  obtain ⟨x₃, rfl, h₃⟩ := map_plainSpace_eq_cons (ha.ne (by decide)) h₂
  obtain ⟨x₄, rfl, h₄⟩ := map_plainSpace_eq_cons (hb.ne (by decide)) h₃
  obtain ⟨x₅, rfl, h₅⟩ := map_plainSpace_eq_cons (hc.ne (by decide)) h₄
  obtain ⟨x₆, rfl, h₆⟩ := map_plainSpace_eq_cons (hd.ne (by decide)) h₅
  exact ⟨x₆, rfl, h₆⟩

/-- And only the strings of the format become strings of JSON in this way. -/
theorem literal_of_map {x s u : List Char} {p : Content} (hx : x.map plainSpace = s)
    (h : Style.plain.Literal s p u) : ∃ y, u = y.map plainSpace ∧ style.Literal x p y := by
  induction h generalizing x with
  | close =>
    obtain ⟨y, rfl, hy⟩ := map_plainSpace_eq_cons (by decide) hx
    exact ⟨y, hy.symm, .close⟩
  | @char c s rest p hq hb hc _ ih =>
    obtain ⟨d, y, rfl, rfl, hy⟩ := List.map_eq_cons_iff.1 hx
    obtain ⟨z, rfl, hz⟩ := ih hy
    have hchar : d ≠ '"' ∧ d ≠ '\\' ∧ ' ' ≤ d := by
      by_cases hd : d = '\u00A0'
      · subst hd; decide
      · rw [plainSpace_eq_self hd] at hq hb hc
        exact ⟨hq, hb, hc⟩
    exact ⟨z, rfl, .char hchar.1 hchar.2.1 hchar.2.2 hz⟩
  | escape he _ ih =>
    obtain ⟨x₁, rfl, h₁⟩ := map_plainSpace_eq_cons (by decide) hx
    obtain ⟨x₂, rfl, h₂⟩ := map_plainSpace_eq_cons (ne_of_mem_escapes he (by decide)) h₁
    obtain ⟨z, rfl, hz⟩ := ih h₂
    exact ⟨z, rfl, .escape he hz⟩
  | code hn hh hl _ ih =>
    obtain ⟨x₁, rfl, h₁⟩ := map_plainSpace_eq_code hn hx
    obtain ⟨z, rfl, hz⟩ := ih h₁
    exact ⟨z, rfl, .code hn hh hl hz⟩
  | pair hm hh hn hl _ ih =>
    obtain ⟨x₁, rfl, h₁⟩ := map_plainSpace_eq_code hm hx
    obtain ⟨x₂, rfl, h₂⟩ := map_plainSpace_eq_code hn h₁
    obtain ⟨z, rfl, hz⟩ := ih h₂
    exact ⟨z, rfl, .pair hm hh hn hl hz⟩
  | half hn hs halone _ ih =>
    obtain ⟨x₁, rfl, h₁⟩ := map_plainSpace_eq_code hn hx
    obtain ⟨z, rfl, hz⟩ := ih h₁
    exact ⟨z, rfl, .half hn hs halone hz⟩

theorem repair_literal {s rest : List Char} {p : Content} (h : style.Literal s p rest) :
    ∃ t, repair ('"' :: s) = '"' :: t ∧ Style.plain.Literal t p (repair rest) := by
  obtain ⟨literal, hl, hu⟩ := splitLiteral?_of_literal (literal_map h)
  exact ⟨literal ++ repair rest, replaceWords_literal hl, hu _⟩

/-- A text that does not go on like the literal of a bare word. -/
def Apart (u : List Char) : Prop := ∀ c, u.head? = some c → c ≠ 'I' ∧ c ≠ '-' ∧ c ≠ 'N'

theorem mem_bareWords {w body : List Char} :
    (w, '"' :: body ++ ['"']) ∈ bareWords ↔
      ∃ word name, (word, name) ∈ wordNames ∧ w = word.toList ∧ body = name.toList := by
  have hquoted : ∀ {name : List Char}, '"' :: body ++ ['"'] = '"' :: name ++ ['"'] ↔ body = name := by
    intro name
    rw [List.cons_append, List.cons_append, List.cons.injEq, List.append_cancel_right_eq]
    exact and_iff_right rfl
  have h₁ : "\"-Infinity\"".toList = '"' :: "-Infinity".toList ++ ['"'] := by decide
  have h₂ : "\"Infinity\"".toList = '"' :: "Infinity".toList ++ ['"'] := by decide
  have h₃ : "\"NaN\"".toList = '"' :: "NaN".toList ++ ['"'] := by decide
  simp only [bareWords, wordNames, List.mem_cons, List.not_mem_nil, or_false, Prod.mk.injEq, h₁, h₂, h₃, hquoted]
  constructor
  · rintro (⟨rfl, rfl⟩ | ⟨rfl, rfl⟩ | ⟨rfl, rfl⟩)
    · exact ⟨_, _, Or.inr (Or.inl ⟨rfl, rfl⟩), rfl, rfl⟩
    · exact ⟨_, _, Or.inl ⟨rfl, rfl⟩, rfl, rfl⟩
    · exact ⟨_, _, Or.inr (Or.inr ⟨rfl, rfl⟩), rfl, rfl⟩
  · rintro ⟨word, name, (⟨rfl, rfl⟩ | ⟨rfl, rfl⟩ | ⟨rfl, rfl⟩), rfl, rfl⟩
    · exact Or.inr (Or.inl ⟨rfl, rfl⟩)
    · exact Or.inl ⟨rfl, rfl⟩
    · exact Or.inr (Or.inr ⟨rfl, rfl⟩)

theorem IsWordBody.not_apart {body : List Char} (h : IsWordBody body) (s : List Char) : ¬Apart (body ++ s) := by
  obtain ⟨w, hw⟩ := h
  obtain ⟨word, name, hmem, -, rfl⟩ := mem_bareWords.1 hw
  simp only [wordNames, List.mem_cons, List.not_mem_nil, or_false, Prod.mk.injEq] at hmem
  intro ha
  rcases hmem with ⟨-, rfl⟩ | ⟨-, rfl⟩ | ⟨-, rfl⟩
  · exact (ha 'I' rfl).1 rfl
  · exact (ha '-' rfl).2.1 rfl
  · exact (ha 'N' rfl).2.2 rfl

/-- **Strings are found where they were.** A quote of a mended text that opens a string opened a literal
before the mending: otherwise the string would end at the first quote of a replaced word, and what stands
there cannot follow a string. -/
theorem literal_of_repair {x t u : List Char} {p : Content} (hx : repair x = '"' :: t)
    (h : Style.plain.Literal t p u) (hu : Apart u) :
    ∃ x' y, x = '"' :: x' ∧ u = repair y ∧ style.Literal x' p y := by
  have hhead := head?_replaceWords (x.map plainSpace)
  have hrep : replaceWords (x.map plainSpace) = '"' :: t := hx
  rw [hrep, List.head?_cons] at hhead
  obtain ⟨m, hm⟩ := List.head?_eq_some_iff.1 hhead.symm
  obtain ⟨x', rfl, rfl⟩ := map_plainSpace_eq_cons (by decide) hm
  rw [List.map_cons, plainSpace_eq_self (by decide)] at hrep
  obtain ⟨literal, hlit, hctx⟩ := splitLiteral?_of_literal h
  cases hs : splitLiteral? (x'.map plainSpace) with
  | none =>
    rw [replaceWords_quote hs] at hrep
    rw [← (List.cons.inj hrep).2] at hlit
    obtain ⟨body, r, hbody, rfl, -⟩ := splitLiteral?_replaceWords hs hlit
    exact absurd hu (hbody.not_apart _)
  | some lr =>
    obtain ⟨l, r⟩ := lr
    rw [replaceWords_literal hs, List.cons_append] at hrep
    rw [← (List.cons.inj hrep).2, splitLiteral?_append_right hs] at hlit
    obtain ⟨rfl, rfl⟩ := Prod.mk.inj (Option.some.inj hlit)
    have hplain := hctx r
    rw [← splitLiteral?_append hs] at hplain
    obtain ⟨y, rfl, hy⟩ := literal_of_map rfl hplain
    exact ⟨x', y, rfl, rfl, hy⟩

/-! ## Numbers and words -/

theorem isSolid_of_isNumber {w : List Char} (h : Json.IsNumber w) : ∀ c ∈ w, IsSolid c := by
  have hdigit : ∀ {c : Char}, c.isDigit = true → IsSolid c := fun hc =>
    ⟨⟨Json.ne_of_isDigit hc (by decide), Json.ne_of_isDigit hc (by decide)⟩,
      Json.ne_of_isDigit hc (by decide), Json.ne_of_isDigit hc (by decide)⟩
  have hmark : ∀ c ∈ ['-', '+', '.', 'e', 'E', '0'], IsSolid c := by
    exact forall_mem_of_all (by decide)
  obtain ⟨hs, hw, hf, he⟩ := h
  intro c hc
  simp only [List.mem_append] at hc
  rcases hc with ((hc | hc) | hc) | hc
  · rcases hs with rfl | rfl
    · cases hc
    · exact hmark c (by simp_all)
  · rcases hw with rfl | ⟨hd, -⟩
    · exact hmark c (by simp_all)
    · exact hdigit (hd.2 c hc)
  · rcases hf with rfl | ⟨digits, rfl, hd⟩
    · cases hc
    · rcases List.mem_cons.1 hc with rfl | hc
      · exact hmark _ (by simp)
      · exact hdigit (hd.2 c hc)
  · rcases he with rfl | ⟨e, sign, digits, rfl, hE, hsign, hd⟩
    · cases hc
    · rw [List.cons_append, List.mem_cons, List.mem_append] at hc
      rcases hc with rfl | hc | hc
      · exact hmark _ (by rcases hE with rfl | rfl <;> simp)
      · exact hmark c (by rcases hsign with rfl | rfl | rfl <;> simp_all)
      · exact hdigit (hd.2 c hc)

/-- A value that is neither a string nor a container stays as it is. -/
theorem isSolid_of_constant {w : String} (hw : w ∈ ["NaN", "Infinity", "-Infinity"]) :
    ∀ c ∈ w.toList, IsSolid c := by
  have hall : ∀ w ∈ ["NaN", "Infinity", "-Infinity"], w.toList.all (fun c => decide (IsSolid c)) = true := by
    decide
  exact forall_mem_of_all (hall w hw)

theorem repair_scalar {s rest : List Char} {v : Json} (h : style.Scalar s v rest) :
    Style.plain.Scalar (repair s) v (repair rest) := by
  cases h with
  | null => rw [repair_append (forall_mem_of_all (by decide))]; exact .null
  | true => rw [repair_append (forall_mem_of_all (by decide))]; exact .true
  | false => rw [repair_append (forall_mem_of_all (by decide))]; exact .false
  | @constant w rest hw =>
    rw [repair_append (isSolid_of_constant hw)]
    exact .constant hw
  | number hw =>
    rw [repair_append (isSolid_of_isNumber hw)]
    exact .number hw
  | string h =>
    obtain ⟨t, ht, hl⟩ := repair_literal h
    rw [ht]
    exact .string hl

theorem apart_of_follows {u : List Char} (h : Follows u) : Apart u := by
  intro c hc
  have hcases := h c hc
  simp only [Json.isSpace, Bool.or_eq_true, decide_eq_true_eq] at hcases
  rcases hcases with (((rfl | rfl) | rfl) | rfl) | rfl | rfl | rfl <;> decide

theorem scalar_of_repair {x s u : List Char} {v : Json} (hx : repair x = s) (h : Style.plain.Scalar s v u)
    (hu : Follows u) : ∃ y, u = repair y ∧ style.Scalar x v y := by
  cases h with
  | null =>
    obtain ⟨y, rfl, hy⟩ := eq_append_of_repair (forall_mem_of_all (by decide)) hx
    exact ⟨y, hy, .null⟩
  | true =>
    obtain ⟨y, rfl, hy⟩ := eq_append_of_repair (forall_mem_of_all (by decide)) hx
    exact ⟨y, hy, .true⟩
  | false =>
    obtain ⟨y, rfl, hy⟩ := eq_append_of_repair (forall_mem_of_all (by decide)) hx
    exact ⟨y, hy, .false⟩
  | @constant w _ hw =>
    obtain ⟨y, rfl, hy⟩ := eq_append_of_repair (isSolid_of_constant hw) hx
    exact ⟨y, hy, .constant hw⟩
  | number hw =>
    obtain ⟨y, rfl, hy⟩ := eq_append_of_repair (isSolid_of_isNumber hw) hx
    exact ⟨y, hy, .number hw⟩
  | string h =>
    obtain ⟨x', y, rfl, hy, hl⟩ := literal_of_repair hx h (apart_of_follows hu)
    exact ⟨y, hy, .string hl⟩

/-! ## Members -/

/-- How a bare word starts. -/
def StartsWord (s : List Char) : Prop :=
  ∃ t, s = 'i' :: t ∨ s = '-' :: 'i' :: t ∨ s = 'n' :: 'a' :: t

theorem startsWord_of_splitBareWord? {s : List Char} (h : splitBareWord? (s.map plainSpace) ≠ none) :
    StartsWord s := by
  obtain ⟨⟨l, r⟩, hlr⟩ := Option.ne_none_iff_exists'.1 h
  obtain ⟨w, hw, hs, -⟩ := splitBareWord?_eq_some hlr
  simp only [bareWords, List.mem_cons, List.not_mem_nil, or_false, Prod.mk.injEq] at hw
  rcases hw with ⟨rfl, -⟩ | ⟨rfl, -⟩ | ⟨rfl, -⟩
  · obtain ⟨x, rfl, hx⟩ := map_plainSpace_eq_cons (by decide) hs
    obtain ⟨y, rfl, -⟩ := map_plainSpace_eq_cons (by decide) hx
    exact ⟨y, Or.inr (Or.inl rfl)⟩
  · obtain ⟨x, rfl, -⟩ := map_plainSpace_eq_cons (by decide) hs
    exact ⟨x, Or.inl rfl⟩
  · obtain ⟨x, rfl, hx⟩ := map_plainSpace_eq_cons (by decide) hs
    obtain ⟨y, rfl, -⟩ := map_plainSpace_eq_cons (by decide) hx
    exact ⟨y, Or.inr (Or.inr rfl)⟩

theorem not_startsWord_of_scalar {S : Style} {s rest : List Char} {v : Json} (h : S.Scalar s v rest) :
    ¬StartsWord s := by
  unfold StartsWord
  cases h with
  | null => simp
  | true => simp
  | false => simp
  | constant hw =>
    simp only [List.mem_cons, List.not_mem_nil, or_false] at hw
    rcases hw with rfl | rfl | rfl <;> simp
  | number hw =>
    cases hw with
    | mk hs hwhole _ _ =>
      obtain ⟨c, whole, rfl, hc⟩ := hwhole.head
      have h₁ : c ≠ 'i' := Json.ne_of_isDigit hc (by decide)
      have h₂ : c ≠ '-' := Json.ne_of_isDigit hc (by decide)
      have h₃ : c ≠ 'n' := Json.ne_of_isDigit hc (by decide)
      rcases hs with rfl | rfl <;> simp [h₁, h₂, h₃]
  | string _ => simp

/-- No value starts with a bare word. -/
theorem not_startsWord_of_value {S : Style} {depth : Nat} {s rest : List Char} {v : Json}
    (h : S.Value depth s v rest) : ¬StartsWord s := by
  cases depth with
  | zero => exact not_startsWord_of_scalar h
  | succ depth =>
    cases h with
    | scalar h => exact not_startsWord_of_scalar h
    | array _ => simp [StartsWord]
    | object _ => simp [StartsWord]

/-- White space and then a value: whatever the walk skips of the white space, it finds no bare word. -/
theorem splitBareWord?_blanks {s t : List Char} (h : style.Blanks s t) (ht : ¬StartsWord t)
    (hs : ∀ c, t.head? = some c → style.isSpace c = false) :
    splitBareWord? ((s.map plainSpace).dropWhile isGap) = none := by
  induction h with
  | @none t =>
    have hdrop : (t.map plainSpace).dropWhile isGap = t.map plainSpace := by
      cases t with
      | nil => rfl
      | cons c t =>
        rw [List.map_cons, List.dropWhile_cons_of_neg]
        intro hgap
        have hspace : Json.isSpace (plainSpace c) = true := by
          simp only [isGap, Bool.or_eq_true, decide_eq_true_eq] at hgap
          rcases hgap with hgap | hgap <;> rw [hgap] <;> decide
        have hfalse := hs c rfl
        rw [style_isSpace hspace] at hfalse
        cases hfalse
    rw [hdrop]
    by_contra hne
    exact ht (startsWord_of_splitBareWord? hne)
  | @more c s t hc _ ih =>
    rw [List.map_cons]
    by_cases hgap : isGap (plainSpace c) = true
    · rw [List.dropWhile_cons_of_pos hgap]
      exact ih ht hs
    · -- a line end: no bare word starts with one
      rw [List.dropWhile_cons_of_neg hgap]
      by_contra hne
      obtain ⟨u, hu⟩ := startsWord_of_splitBareWord? (s := c :: s) hne
      simp only [List.cons.injEq] at hu
      rcases hu with ⟨rfl, -⟩ | ⟨rfl, -⟩ | ⟨rfl, -⟩ <;> exact absurd hc (by decide)

/-- No value starts like a bare word, so that the colon before it is copied alone. -/
theorem splitBareWord?_value {S : Style} {depth : Nat} {s t rest : List Char} {v : Json} (h : style.Blanks s t)
    (hv : S.Value depth t v rest) : splitBareWord? ((s.map plainSpace).dropWhile isGap) = none := by
  obtain ⟨c, t', ht, hstart⟩ := hv.start
  apply splitBareWord?_blanks h (not_startsWord_of_value hv)
  intro d hd
  rw [ht] at hd
  obtain rfl := Option.some.inj hd
  simp only [style, hstart.isStart.1, Bool.false_or, decide_eq_false_iff_not]
  exact hstart.ne (by decide) (by decide)

theorem endsValue_of_blanks {s t : List Char} {c : Char} (h : style.Blanks s (c :: t))
    (hc : c = ',' ∨ c = '\x7d') : endsValue (s.map plainSpace) = true := by
  generalize hr : c :: t = r at h
  induction h with
  | none =>
    subst hr
    rcases hc with rfl | rfl <;> rfl
  | @more d s rest hd _ ih =>
    have hblank : (plainSpace d = ' ' ∨ plainSpace d = '\t' ∨ plainSpace d = '\r') ∨ plainSpace d = '\n' := by
      simp only [style, Json.isSpace, Bool.or_eq_true, decide_eq_true_eq] at hd
      rcases hd with (((rfl | rfl) | rfl) | rfl) | rfl <;> decide
    rcases hblank with hblank | hline
    · have ih' := ih hr
      unfold endsValue at ih' ⊢
      rw [List.map_cons, List.dropWhile_cons_of_pos]
      · exact ih'
      · simpa [or_assoc] using hblank
    · unfold endsValue
      rw [List.map_cons, hline]
      rfl

/-- Characters that stand for themselves in a string. -/
theorem literal_chars {body : List Char} (h : ∀ c ∈ body, c ≠ '"' ∧ c ≠ '\\' ∧ ' ' ≤ c) (u : List Char) :
    Style.plain.Literal (body ++ '"' :: u) (body.map .char) u := by
  induction body with
  | nil => exact .close
  | cons c body ih =>
    obtain ⟨hq, hb, hc⟩ := h c List.mem_cons_self
    exact .char hq hb hc (ih fun d hd => h d (List.mem_cons_of_mem _ hd))

theorem literal_of_mem_wordNames {word name : String} (h : (word, name) ∈ wordNames) (u : List Char) :
    Style.plain.Literal (name.toList ++ '"' :: u) (Content.ofText name) u := by
  have hall : ∀ w ∈ wordNames, w.2.toList.all (fun c => decide (c ≠ '"' ∧ c ≠ '\\' ∧ ' ' ≤ c)) = true := by
    decide
  exact literal_chars (forall_mem_of_all (hall _ h)) u

theorem value_of_scalar {S : Style} {s rest : List Char} {v : Json} (h : S.Scalar s v rest) :
    ∀ depth, S.Value depth s v rest
  | 0 => h
  | _ + 1 => .scalar h

theorem isSpace_of_isGap {c : Char} (h : isGap c = true) : Json.isSpace c = true := by
  simp only [isGap, Bool.or_eq_true, decide_eq_true_eq] at h
  rcases h with rfl | rfl <;> decide

theorem blanks_append {gap : List Char} (h : ∀ c ∈ gap, Json.isSpace c = true) (s : List Char) :
    Style.plain.Blanks (gap ++ s) s := by
  induction gap with
  | nil => exact .none
  | cons c gap ih =>
    exact .more (h c List.mem_cons_self) (ih fun d hd => h d (List.mem_cons_of_mem _ hd))

/-- A bare word becomes the string of its name. -/
theorem repair_bareWord {s rest : List Char} {v : Json} (h : BareWord s v rest)
    (he : endsValue (rest.map plainSpace) = true) :
    ∃ t, repair (':' :: s) = ':' :: t ∧ ∃ t', Style.plain.Blanks t t' ∧
      Style.plain.Scalar t' v (repair rest) := by
  obtain ⟨hgap, hw⟩ := h
  rename_i gap word name
  have hmem := mem_bareWords.2 ⟨word, name, hw, rfl, rfl⟩
  have hgap' : ∀ c ∈ gap.map plainSpace, isGap c = true := by
    intro c hc
    obtain ⟨d, hd, rfl⟩ := List.mem_map.1 hc
    rcases hgap d hd with rfl | rfl | rfl <;> decide
  have hword : (word.toList ++ rest).map plainSpace = word.toList ++ rest.map plainSpace := by
    have hall : ∀ w ∈ wordNames, w.1.toList.all (fun c => decide (c ≠ '\u00A0')) = true := by decide
    rw [List.map_append, map_plainSpace_self (forall_mem_of_all (hall _ hw))]
  have hstop : (word.toList ++ rest.map plainSpace).takeWhile isGap = [] ∧
      (word.toList ++ rest.map plainSpace).dropWhile isGap = word.toList ++ rest.map plainSpace := by
    simp only [wordNames, List.mem_cons, List.not_mem_nil, or_false, Prod.mk.injEq] at hw
    rcases hw with ⟨rfl, -⟩ | ⟨rfl, -⟩ | ⟨rfl, -⟩ <;> simp [isGap]
  have hfound : splitBareWord? (((gap ++ (word.toList ++ rest)).map plainSpace).dropWhile isGap) =
      some ('"' :: name.toList ++ ['"'], rest.map plainSpace) := by
    rw [List.map_append, hword, List.dropWhile_append_of_pos hgap', hstop.2, splitBareWord?_append hmem he]
  have htake : ((gap ++ (word.toList ++ rest)).map plainSpace).takeWhile isGap = gap.map plainSpace := by
    rw [List.map_append, hword, List.takeWhile_append_of_pos hgap', hstop.1, List.append_nil]
  refine ⟨gap.map plainSpace ++ ('"' :: (name.toList ++ '"' :: repair rest)), ?_, _, ?_,
    .string (literal_of_mem_wordNames hw _)⟩
  · unfold repair
    rw [List.map_cons, plainSpace_eq_self (by decide), replaceWords_word hfound, htake]
    simp
  · exact blanks_append (fun c hc => isSpace_of_isGap (hgap' c hc)) _

/-! ## Containers -/

/-- White space, and then a comma or the bracket that closes the container. -/
def Ends (close : Char) (rest : List Char) : Prop :=
  ∃ c t, style.Blanks rest (c :: t) ∧ (c = ',' ∨ c = close)

/-- A rule of the format, and the rule of JSON that mending makes of it, where `ends` says what may follow. -/
structure Carried {α : Type} (ends : List Char → Prop) (rule plainRule : List Char → α → List Char → Prop) :
    Prop where
  forth : ∀ {s rest : List Char} {a : α}, rule s a rest → ends rest → plainRule (repair s) a (repair rest)
  back : ∀ {x s u : List Char} {a : α}, repair x = s → plainRule s a u → Follows u →
    ∃ y, u = repair y ∧ rule x a y

/-- Brackets and commas are copied. -/
theorem repair_blanks_cons {s rest : List Char} {c : Char} (hc : IsSolid c) (h : style.Blanks s (c :: rest)) :
    Style.plain.Blanks (repair s) (c :: repair rest) := by
  have hblanks := repair_blanks h
  rwa [repair_cons (by rw [plainSpace_eq_self hc.2.2]; exact hc.1), plainSpace_eq_self hc.2.2] at hblanks

theorem blanks_cons_of_repair {x s u : List Char} {c : Char} (hc : IsSolid c) (hx : repair x = s)
    (h : Style.plain.Blanks s (c :: u)) : ∃ y, u = repair y ∧ style.Blanks x (c :: y) := by
  obtain ⟨z, hz, hblanks⟩ := blanks_of_repair hx h
  obtain ⟨y, rfl, hu⟩ := eq_solid_of_repair hc hz.symm
  exact ⟨y, hu, hblanks⟩

section Containers

variable {α : Type} {close : Char} {rule plainRule : List Char → α → List Char → Prop}

theorem items_forth (hr : Carried (Ends close) rule plainRule) (hc : IsSolid close) {s rest : List Char}
    {as : List α} (h : style.Items rule close s as rest) :
    Style.plain.Items plainRule close (repair s) as (repair rest) := by
  have hcomma : IsSolid ',' := by decide
  induction h with
  | last h₁ ha h₂ =>
    exact .last (repair_blanks h₁) (hr.forth ha ⟨_, _, h₂, Or.inr rfl⟩) (repair_blanks_cons hc h₂)
  | more h₁ ha h₂ _ ih =>
    exact .more (repair_blanks h₁) (hr.forth ha ⟨_, _, h₂, Or.inl rfl⟩) (repair_blanks_cons hcomma h₂) ih

theorem items_back (hr : Carried (Ends close) rule plainRule) (hclose : close = ']' ∨ close = '\x7d')
    (hc : IsSolid close) {x s u : List Char} {as : List α} (hx : repair x = s)
    (h : Style.plain.Items plainRule close s as u) : ∃ y, u = repair y ∧ style.Items rule close x as y := by
  have hcomma : IsSolid ',' := by decide
  induction h generalizing x with
  | last h₁ ha h₂ =>
    obtain ⟨y₁, hy₁, hb₁⟩ := blanks_of_repair hx h₁
    obtain ⟨y₂, hy₂, hitem⟩ := hr.back hy₁.symm ha
      (Json.follows_of_blanks h₂ (Json.follows_cons (Or.inr hclose) _))
    obtain ⟨y, hy, hb₂⟩ := blanks_cons_of_repair hc hy₂.symm h₂
    exact ⟨y, hy, .last hb₁ hitem hb₂⟩
  | more h₁ ha h₂ _ ih =>
    obtain ⟨y₁, hy₁, hb₁⟩ := blanks_of_repair hx h₁
    obtain ⟨y₂, hy₂, hitem⟩ := hr.back hy₁.symm ha
      (Json.follows_of_blanks h₂ (Json.follows_cons (Or.inl rfl) _))
    obtain ⟨y₃, hy₃, hb₂⟩ := blanks_cons_of_repair hcomma hy₂.symm h₂
    obtain ⟨y, hy, hitems⟩ := ih hy₃.symm
    exact ⟨y, hy, .more hb₁ hitem hb₂ hitems⟩

theorem container_forth (hr : Carried (Ends close) rule plainRule) (hc : IsSolid close) {s rest : List Char}
    {as : List α} (h : style.Container rule close s as rest) :
    Style.plain.Container plainRule close (repair s) as (repair rest) := by
  cases h with
  | empty h => exact .empty (repair_blanks_cons hc h)
  | items h => exact .items (items_forth hr hc h)

theorem container_back (hr : Carried (Ends close) rule plainRule) (hclose : close = ']' ∨ close = '\x7d')
    (hc : IsSolid close) {x s u : List Char} {as : List α} (hx : repair x = s)
    (h : Style.plain.Container plainRule close s as u) :
    ∃ y, u = repair y ∧ style.Container rule close x as y := by
  cases h with
  | empty h =>
    obtain ⟨y, hy, hb⟩ := blanks_cons_of_repair hc hx h
    exact ⟨y, hy, .empty hb⟩
  | items h =>
    obtain ⟨y, hy, hitems⟩ := items_back hr hclose hc hx h
    exact ⟨y, hy, .items hitems⟩

end Containers

/-! ## Values -/

/-- A value that starts with a quote is a string. -/
theorem string_of_value {depth : Nat} {s u : List Char} {v : Json}
    (h : Style.plain.Value depth ('"' :: s) v u) (hu : Follows u) :
    ∃ p, v = .string p ∧ Style.plain.Literal s p u :=
  Json.readValue_string.1 ((Json.readValue_reads depth).complete h hu)

theorem literal_unique {s u u' : List Char} {p p' : Content} (h : Style.plain.Literal s p u)
    (h' : Style.plain.Literal s p' u') : p = p' ∧ u = u' := by
  obtain ⟨hlen, hr⟩ := Json.readString_gives.2 h
  obtain ⟨hlen', hr'⟩ := Json.readString_gives.2 h'
  rw [hr] at hr'
  simpa using hr'

theorem apart_of_blanks {s t : List Char} (h : Style.plain.Blanks s (':' :: t)) : Apart s := by
  cases h with
  | none => intro c hc; obtain rfl := Option.some.inj hc; decide
  | more hs _ =>
    intro c hc
    obtain rfl := Option.some.inj hc
    simp only [Style.plain, Json.isSpace, Bool.or_eq_true, decide_eq_true_eq] at hs
    rcases hs with ((rfl | rfl) | rfl) | rfl <;> decide

/-- Undoing the mending of a gap and a bare word. -/
theorem bareWord_of_map {x r : List Char} {word name : String} (hw : (word, name) ∈ wordNames)
    (h : x.map plainSpace = (x.map plainSpace).takeWhile isGap ++ word.toList ++ r) :
    ∃ y, r = y.map plainSpace ∧ BareWord x (.text name) y := by
  obtain ⟨front, y, hx, hfront, rfl⟩ := List.map_eq_append_iff.1 h
  obtain ⟨gap, b, rfl, hgap, hb⟩ := List.map_eq_append_iff.1 hfront
  -- no character of the word is a space, so the word was there as it stands
  have hsolid : ∀ w ∈ wordNames, w.1.toList.all (fun c => decide (c ≠ ' ')) = true := by decide
  have hword : ∀ {b w : List Char}, (∀ c ∈ w, c ≠ ' ') → b.map plainSpace = w → b = w := by
    intro b
    induction b with
    | nil => intro w _ h; exact h
    | cons c b ih =>
      intro w hw h
      obtain rfl := h.symm
      rw [List.map_cons] at hw ⊢
      rw [← eq_of_plainSpace rfl (hw _ List.mem_cons_self),
        ← ih (fun d hd => hw d (List.mem_cons_of_mem _ hd)) rfl]
  obtain rfl := hword (forall_mem_of_all (hsolid _ hw)) hb
  refine ⟨y, rfl, ?_⟩
  rw [hx, List.append_assoc]
  refine .mk (fun c hc => ?_) hw
  have hc' : isGap (plainSpace c) = true :=
    List.mem_takeWhile_imp (hgap ▸ List.mem_map_of_mem hc)
  by_cases hn : c = '\u00A0'
  · exact Or.inr (Or.inr hn)
  · rw [plainSpace_eq_self hn] at hc'
    simp only [isGap, Bool.or_eq_true, decide_eq_true_eq] at hc'
    exact hc'.imp_right Or.inl

/-- What stands after the colon of a member of a mended text. -/
theorem value_of_repair {depth : Nat} {z s t u : List Char} {v : Json}
    (hvalue : Carried (fun _ => True) (style.Value depth) (Style.plain.Value depth))
    (hz : repair (':' :: z) = ':' :: s) (hb : Style.plain.Blanks s t) (hv : Style.plain.Value depth t v u)
    (hu : Follows u) :
    ∃ y, u = repair y ∧ ((∃ z', style.Blanks z z' ∧ style.Value depth z' v y) ∨ BareWord z v y) := by
  unfold repair at hz
  rw [List.map_cons, plainSpace_eq_self (by decide)] at hz
  -- the colon was copied alone, or with the literal of a bare word
  rcases replaceWords_colon_cases (z.map plainSpace) with ⟨-, hcopy⟩ | ⟨w, body, r, hw, hs, -, hcopy⟩
  · rw [hcopy] at hz
    obtain ⟨z', hz', hblanks⟩ := blanks_of_repair (List.cons.inj hz).2 hb
    obtain ⟨y, hy, hvy⟩ := hvalue.back hz'.symm hv hu
    exact ⟨y, hy, Or.inl ⟨z', hblanks, hvy⟩⟩
  · rw [hcopy, List.cons_append] at hz
    obtain ⟨word, name, hmem, rfl, rfl⟩ := mem_bareWords.1 hw
    -- the value is the literal that the word was replaced by
    have ht : t = '"' :: (name.toList ++ '"' :: replaceWords r) := by
      obtain ⟨c, t', rfl, hc⟩ := hv.start
      have hskip := Json.skipSpace_of_blanks hb
      rw [Json.skipSpace_cons hc.isStart.1, ← (List.cons.inj hz).2,
        Json.skipSpace_of_blanks (blanks_append (fun c hc => isSpace_of_isGap (List.mem_takeWhile_imp hc)) _),
        Json.skipSpace_cons (by decide)] at hskip
      exact hskip.symm
    subst ht
    obtain ⟨p, rfl, hp⟩ := string_of_value hv hu
    obtain ⟨rfl, rfl⟩ := literal_unique hp (literal_of_mem_wordNames hmem _)
    obtain ⟨y, rfl, hy⟩ := bareWord_of_map hmem hs
    exact ⟨y, rfl, Or.inr hy⟩

theorem member_carried {depth : Nat}
    (hvalue : Carried (fun _ => True) (style.Value depth) (Style.plain.Value depth)) :
    Carried (Ends '\x7d') (style.Member (style.Value depth)) (Style.plain.Member (Style.plain.Value depth)) where
  forth := by
    intro s rest m h hends
    cases h with
    | value hn hc hb hv =>
      obtain ⟨t, ht, hl⟩ := repair_literal hn
      have hno := splitBareWord?_value hb hv
      have hcolon := repair_blanks hc
      unfold repair at hcolon
      rw [List.map_cons, plainSpace_eq_self (by decide), replaceWords_colon hno] at hcolon
      rw [ht]
      exact .value hl hcolon (repair_blanks hb) (hvalue.forth hv trivial)
    | bare hn hc hv =>
      obtain ⟨t, ht, hl⟩ := repair_literal hn
      obtain ⟨d, t', hblanks, hd⟩ := hends
      obtain ⟨t₁, hcopy, t₂, hb, hs⟩ := repair_bareWord hv (endsValue_of_blanks hblanks hd)
      have hcolon := repair_blanks hc
      rw [hcopy] at hcolon
      rw [ht]
      exact .value hl hcolon hb (value_of_scalar hs depth)
  back := by
    intro x s u m hx h hu
    cases h with
    | bare _ _ hv => exact hv.elim
    | value hn hc hb hv =>
      obtain ⟨x', y₁, rfl, hy₁, hl⟩ := literal_of_repair hx hn (apart_of_blanks hc)
      obtain ⟨z, hz, hblanks⟩ := blanks_of_repair hy₁.symm hc
      have hhead := head?_repair z
      rw [← hz, List.head?_cons] at hhead
      obtain ⟨d, hd, hdc⟩ := Option.map_eq_some_iff.1 hhead.symm
      obtain rfl := eq_of_plainSpace hdc (by decide)
      obtain ⟨z', rfl⟩ := List.head?_eq_some_iff.1 hd
      obtain ⟨y, hy, ⟨z'', hb', hv'⟩ | hword⟩ := value_of_repair hvalue hz.symm hb hv hu
      · exact ⟨y, hy, .value hl hblanks hb' hv'⟩
      · exact ⟨y, hy, .bare hl hblanks hword⟩

theorem value_carried (depth : Nat) :
    Carried (fun _ => True) (style.Value depth) (Style.plain.Value depth) := by
  have hsolid : ∀ c ∈ ['[', ']', '\x7b', '\x7d'], IsSolid c := forall_mem_of_all (by decide)
  induction depth with
  | zero => exact ⟨fun h _ => repair_scalar h, scalar_of_repair⟩
  | succ depth ih =>
    have hitem : Carried (Ends ']') (style.Value depth) (Style.plain.Value depth) :=
      ⟨fun h _ => ih.forth h trivial, ih.back⟩
    constructor
    · intro s rest v h _
      cases h with
      | scalar h => exact .scalar (repair_scalar h)
      | array h =>
        rw [← List.singleton_append, repair_append (by simpa using hsolid '[' (by decide))]
        exact .array (container_forth hitem (hsolid _ (by decide)) h)
      | object h =>
        rw [← List.singleton_append, repair_append (by simpa using hsolid '\x7b' (by decide))]
        exact .object (container_forth (member_carried ih) (hsolid _ (by decide)) h)
    · intro x s u v hx h hu
      cases h with
      | scalar h =>
        obtain ⟨y, hy, hs⟩ := scalar_of_repair hx h hu
        exact ⟨y, hy, .scalar hs⟩
      | array h =>
        obtain ⟨x', rfl, hx'⟩ := eq_solid_of_repair (hsolid _ (by decide)) hx
        obtain ⟨y, hy, hc⟩ := container_back hitem (Or.inl rfl) (hsolid _ (by decide)) hx'.symm h
        exact ⟨y, hy, .array hc⟩
      | object h =>
        obtain ⟨x', rfl, hx'⟩ := eq_solid_of_repair (hsolid _ (by decide)) hx
        obtain ⟨y, hy, hc⟩ := container_back (member_carried ih) (Or.inr rfl) (hsolid _ (by decide)) hx'.symm h
        exact ⟨y, hy, .object hc⟩

/-! ## Whole texts -/

theorem repair_eq_nil {x : List Char} (h : repair x = []) : x = [] := by
  cases x with
  | nil => rfl
  | cons c x =>
    have hhead := head?_repair (c :: x)
    rw [h] at hhead
    cases hhead

theorem text_repair_iff {depth : Nat} {raw : List Char} {v : Json} :
    Style.plain.Text depth (repair raw) v ↔ Document depth raw v := by
  constructor
  · rintro ⟨s₁, s₂, h₁, hv, h₂⟩
    obtain ⟨y₁, hy₁, hb₁⟩ := blanks_of_repair rfl h₁
    obtain ⟨y₂, hy₂, hv'⟩ := (value_carried _).back hy₁.symm hv (Json.follows_of_blanks h₂ Json.follows_nil)
    obtain ⟨y₃, hy₃, hb₂⟩ := blanks_of_repair hy₂.symm h₂
    obtain rfl := repair_eq_nil hy₃.symm
    exact ⟨y₁, y₂, hb₁, hv', hb₂⟩
  · rintro ⟨s₁, s₂, h₁, hv, h₂⟩
    have hnil : repair [] = [] := replaceWords_nil
    exact ⟨_, _, repair_blanks h₁, (value_carried _).forth hv trivial, hnil ▸ repair_blanks h₂⟩

/-- **The mended text is read exactly if the text is a document**, and then as the value that the document
has: a number as it is spelled, a bare word as the string of its name. -/
theorem read_sanitize_iff (depth : Nat) (raw : String) (v : Json) :
    Json.read depth none (sanitize raw) = .ok v ↔ Document depth raw.toList v := by
  unfold sanitize
  rw [Json.read_iff, String.toList_ofList, text_repair_iff]

end Demotion.FloatMap
