import Mathlib.Data.List.TakeWhile
import Mathlib.Tactic
import Demotion.FloatMap.Repair

/-!
# A mended float map needs no mending

`replaceWords` walks over a text from left to right. It copies string literals whole, turns bare
words into literals and copies everything else, a quote that opens no literal included.

* `splitLiteral?_replaceWords`: the one way in which the walk over a mended text differs from the walk
  over the text it came from. A quote that opened no literal may open one after the mending, and that
  literal then ends at the first quote of a replaced word.
* `replaceWords_replaceWords`: a second walk changes nothing, whatever the text.
* `sanitize_sanitize`: **mending is idempotent on every text**, well formed or not.
-/

namespace Demotion.FloatMap

/-! ## The steps of the walk -/

theorem replaceWords_nil : replaceWords [] = [] := by
  rw [replaceWords]

theorem replaceWords_cons {c : Char} {s : List Char} (hq : c ≠ '"') (hc : c ≠ ':') :
    replaceWords (c :: s) = c :: replaceWords s := by
  rw [replaceWords]
  · exact fun h => hq h
  · exact fun h => hc h

theorem replaceWords_literal {s literal rest : List Char} (h : splitLiteral? s = some (literal, rest)) :
    replaceWords ('"' :: s) = '"' :: literal ++ replaceWords rest := by
  rw [replaceWords]
  split
  · rename_i l r hlr
    rw [h] at hlr
    obtain ⟨rfl, rfl⟩ := Prod.mk.inj (Option.some.inj hlr)
    rfl
  · rename_i hn
    rw [h] at hn
    cases hn

theorem replaceWords_quote {s : List Char} (h : splitLiteral? s = none) :
    replaceWords ('"' :: s) = '"' :: replaceWords s := by
  rw [replaceWords]
  split
  · rename_i hs
    rw [h] at hs
    cases hs
  · rfl

theorem replaceWords_word {s literal rest : List Char}
    (h : splitBareWord? (s.dropWhile isGap) = some (literal, rest)) :
    replaceWords (':' :: s) = ':' :: s.takeWhile isGap ++ literal ++ replaceWords rest := by
  rw [replaceWords]
  split
  · rename_i l r hlr
    rw [h] at hlr
    obtain ⟨rfl, rfl⟩ := Prod.mk.inj (Option.some.inj hlr)
    rfl
  · rename_i hn
    rw [h] at hn
    cases hn

theorem replaceWords_colon {s : List Char} (h : splitBareWord? (s.dropWhile isGap) = none) :
    replaceWords (':' :: s) = ':' :: replaceWords s := by
  rw [replaceWords]
  split
  · rename_i hs
    rw [h] at hs
    cases hs
  · rfl

/-- Whether the walk passes over a character without looking further: it is no quote and no colon. -/
def IsPassed (c : Char) : Prop := c ≠ '"' ∧ c ≠ ':'

instance : DecidablePred IsPassed := fun c => inferInstanceAs (Decidable (c ≠ '"' ∧ c ≠ ':'))

/-- What each character of a text has is found out by looking at them. -/
theorem forall_mem_of_all {p : Char → Prop} [DecidablePred p] {w : List Char}
    (h : w.all (fun c => decide (p c)) = true) : ∀ c ∈ w, p c :=
  fun c hc => of_decide_eq_true (List.all_eq_true.1 h c hc)

theorem replaceWords_append {w : List Char} (hw : ∀ c ∈ w, IsPassed c) (s : List Char) :
    replaceWords (w ++ s) = w ++ replaceWords s := by
  induction w with
  | nil => rfl
  | cons c w ih =>
    have hc := hw c List.mem_cons_self
    rw [List.cons_append, replaceWords_cons hc.1 hc.2, ih fun d hd => hw d (List.mem_cons_of_mem _ hd),
      List.cons_append]

/-- A mended text starts with the same character. -/
theorem head?_replaceWords (s : List Char) : (replaceWords s).head? = s.head? := by
  cases s with
  | nil => rw [replaceWords_nil]
  | cons c s =>
    by_cases hq : c = '"'
    · subst hq
      cases h : splitLiteral? s with
      | none => rw [replaceWords_quote h]; rfl
      | some lr => rw [replaceWords_literal h]; rfl
    · by_cases hc : c = ':'
      · subst hc
        cases h : splitBareWord? (s.dropWhile isGap) with
        | none => rw [replaceWords_colon h]; rfl
        | some lr => rw [replaceWords_word h]; rfl
      · rw [replaceWords_cons hq hc]; rfl

/-- What a mended text starts with is where it was, as far as the walk passes over it. -/
theorem eq_append_of_replaceWords {w s u : List Char} (hw : ∀ c ∈ w, IsPassed c)
    (h : replaceWords s = w ++ u) : ∃ r, s = w ++ r ∧ u = replaceWords r := by
  induction w generalizing s with
  | nil => exact ⟨s, rfl, h.symm⟩
  | cons c w ih =>
    have hc := hw c List.mem_cons_self
    have hhead := head?_replaceWords s
    rw [h, List.cons_append, List.head?_cons] at hhead
    obtain ⟨s', rfl⟩ := List.head?_eq_some_iff.1 hhead.symm
    rw [replaceWords_cons hc.1 hc.2, List.cons_append] at h
    obtain ⟨r, rfl, hr⟩ := ih (fun d hd => hw d (List.mem_cons_of_mem _ hd)) (List.cons.inj h).2
    exact ⟨r, rfl, hr⟩

theorem dropWhile_replaceWords {p : Char → Bool} (hp : ∀ c, p c = true → IsPassed c) (s : List Char) :
    (replaceWords s).dropWhile p = replaceWords (s.dropWhile p) := by
  induction s with
  | nil => simp only [replaceWords_nil, List.dropWhile_nil]
  | cons c s ih =>
    by_cases hpc : p c = true
    · rw [replaceWords_cons (hp c hpc).1 (hp c hpc).2, List.dropWhile_cons_of_pos hpc, ih,
        List.dropWhile_cons_of_pos hpc]
    · have hhead := head?_replaceWords (c :: s)
      obtain ⟨r, hr⟩ := List.head?_eq_some_iff.1 hhead
      rw [List.dropWhile_cons_of_neg hpc, hr, List.dropWhile_cons_of_neg hpc]

/-! ## Bare words -/

theorem isPassed_of_isGap {c : Char} (h : isGap c = true) : IsPassed c ∧ c ≠ '\\' := by
  unfold isGap at h
  simp only [Bool.or_eq_true, decide_eq_true_eq] at h
  rcases h with rfl | rfl <;> exact ⟨⟨by decide, by decide⟩, by decide⟩

/-- The walk passes over a bare word, and over what stands between the quotes of its literal. -/
theorem isPassed_of_mem_bareWords {w : List Char × List Char} (h : w ∈ bareWords) :
    (∀ c ∈ w.1, IsPassed c) ∧
      ∃ body, w.2 = '"' :: body ++ ['"'] ∧ (∀ c ∈ body, IsPassed c) ∧ ∀ c ∈ body, c ≠ '\\' := by
  simp only [bareWords, List.mem_cons, List.not_mem_nil, or_false] at h
  rcases h with rfl | rfl | rfl
  · exact ⟨forall_mem_of_all (by decide), "-Infinity".toList, by decide, forall_mem_of_all (by decide),
      forall_mem_of_all (by decide)⟩
  · exact ⟨forall_mem_of_all (by decide), "Infinity".toList, by decide, forall_mem_of_all (by decide),
      forall_mem_of_all (by decide)⟩
  · exact ⟨forall_mem_of_all (by decide), "NaN".toList, by decide, forall_mem_of_all (by decide),
      forall_mem_of_all (by decide)⟩

theorem splitBareWord?_eq_some {s literal rest : List Char}
    (h : splitBareWord? s = some (literal, rest)) :
    ∃ w, (w, literal) ∈ bareWords ∧ s = w ++ rest ∧ endsValue rest = true := by
  obtain ⟨⟨w, l⟩, hw, hs⟩ := List.exists_of_findSome?_eq_some h
  dsimp only at hs
  split at hs
  · rename_i r hr
    split at hs
    · rename_i he
      obtain ⟨rfl, rfl⟩ := Prod.mk.inj (Option.some.inj hs)
      exact ⟨w, hw, Text.after?_append hr, he⟩
    · cases hs
  · cases hs

theorem splitBareWord?_append {w literal rest : List Char} (hw : (w, literal) ∈ bareWords)
    (he : endsValue rest = true) : splitBareWord? (w ++ rest) = some (literal, rest) := by
  simp only [bareWords, List.mem_cons, List.not_mem_nil, or_false, Prod.mk.injEq] at hw
  unfold splitBareWord? bareWords
  -- no bare word is the start of another, so the first that fits is the one that is there
  rcases hw with ⟨rfl, rfl⟩ | ⟨rfl, rfl⟩ | ⟨rfl, rfl⟩
  · simp [Text.after?, he]
  · simp [Text.after?, he]
  · simp [Text.after?, he]

theorem endsValue_replaceWords (s : List Char) : endsValue (replaceWords s) = endsValue s := by
  have hp : ∀ c : Char, (c = ' ' || c = '\t' || c = '\r') = true → IsPassed c := by
    intro c hc
    simp only [Bool.or_eq_true, decide_eq_true_eq] at hc
    rcases hc with (rfl | rfl) | rfl <;> exact ⟨by decide, by decide⟩
  unfold endsValue
  rw [dropWhile_replaceWords hp]
  have hhead := head?_replaceWords (s.dropWhile fun c => c = ' ' || c = '\t' || c = '\r')
  generalize hr : replaceWords (s.dropWhile fun c => c = ' ' || c = '\t' || c = '\r') = r at hhead
  generalize s.dropWhile (fun c => c = ' ' || c = '\t' || c = '\r') = d at hhead
  cases r <;> cases d <;> simp_all

/-- Mending makes no bare words. -/
theorem splitBareWord?_replaceWords {s : List Char} (h : splitBareWord? s = none) :
    splitBareWord? (replaceWords s) = none := by
  by_contra hne
  obtain ⟨⟨literal, u⟩, hu⟩ := Option.ne_none_iff_exists'.1 hne
  obtain ⟨w, hw, hs, he⟩ := splitBareWord?_eq_some hu
  obtain ⟨r, rfl, rfl⟩ := eq_append_of_replaceWords (isPassed_of_mem_bareWords hw).1 hs
  rw [endsValue_replaceWords] at he
  rw [splitBareWord?_append hw he] at h
  cases h

/-! ## String literals -/

theorem splitLiteral?_cons {c : Char} {s : List Char} (hq : c ≠ '"') (hb : c ≠ '\\') :
    splitLiteral? (c :: s) = (splitLiteral? s).map fun r => (c :: r.1, r.2) := by
  rw [splitLiteral?]
  · exact fun h => hq h
  · exact fun _ _ h => absurd h hb

theorem splitLiteral?_escape {c : Char} {s : List Char} (hc : c ≠ '\n') :
    splitLiteral? ('\\' :: c :: s) = (splitLiteral? s).map fun r => ('\\' :: c :: r.1, r.2) := by
  rw [splitLiteral?, if_neg hc]

/-- A literal is found again whatever follows it. -/
theorem splitLiteral?_append_right {s literal rest : List Char}
    (h : splitLiteral? s = some (literal, rest)) (t : List Char) :
    splitLiteral? (literal ++ t) = some (literal, t) := by
  fun_induction splitLiteral? s generalizing literal rest with
  | case1 => cases h
  | case2 s =>
    obtain ⟨rfl, rfl⟩ := Prod.mk.inj (Option.some.inj h)
    rfl
  | case3 => cases h
  | case4 c s hc ih =>
    obtain ⟨⟨l, r⟩, hr, hl⟩ := Option.map_eq_some_iff.1 h
    obtain ⟨rfl, rfl⟩ := Prod.mk.inj hl
    rw [List.cons_append, List.cons_append, splitLiteral?_escape hc, ih hr]
    rfl
  | case5 c s hq hb ih =>
    obtain ⟨⟨l, r⟩, hr, hl⟩ := Option.map_eq_some_iff.1 h
    obtain ⟨rfl, rfl⟩ := Prod.mk.inj hl
    by_cases hc : c = '\\'
    · -- a backslash alone at the end of the text closes nothing
      subst hc
      cases s with
      | nil => cases hr
      | cons d s => exact absurd rfl (hb d s rfl)
    · rw [List.cons_append, splitLiteral?_cons (fun h => hq h) hc, ih hr]
      rfl

theorem exists_of_map {g : List Char × List Char → List Char × List Char} {o : Option (List Char × List Char)}
    {l u : List Char} (h : o.map g = some (l, u)) (hg : ∀ r, (g r).2 = r.2) : ∃ l', o = some (l', u) := by
  obtain ⟨⟨l', u'⟩, ho, hlu⟩ := Option.map_eq_some_iff.1 h
  have hu : u = u' := (congrArg Prod.snd hlu).symm.trans (hg _)
  exact ⟨l', hu ▸ ho⟩

theorem splitLiteral?_passed {w : List Char} (hq : ∀ c ∈ w, c ≠ '"') (hb : ∀ c ∈ w, c ≠ '\\')
    (s : List Char) : splitLiteral? (w ++ s) = (splitLiteral? s).map fun r => (w ++ r.1, r.2) := by
  induction w with
  | nil => simp
  | cons c w ih =>
    rw [List.cons_append, splitLiteral?_cons (hq c List.mem_cons_self) (hb c List.mem_cons_self),
      ih (fun d hd => hq d (List.mem_cons_of_mem _ hd)) fun d hd => hb d (List.mem_cons_of_mem _ hd),
      Option.map_map]
    rfl

/-! ## The second walk -/

/-- What stands between the quotes of the literal of a bare word. -/
def IsWordBody (body : List Char) : Prop := ∃ w, (w, '"' :: body ++ ['"']) ∈ bareWords

theorem IsWordBody.isPassed {body : List Char} (h : IsWordBody body) : ∀ c ∈ body, IsPassed c := by
  obtain ⟨w, hw⟩ := h
  obtain ⟨-, body', hb, hp, -⟩ := isPassed_of_mem_bareWords hw
  simp only [List.cons_append, List.cons.injEq, List.append_cancel_right_eq, true_and] at hb
  rw [hb]
  exact hp

/-- The literal of a word is a literal of the mended text. -/
theorem IsWordBody.splitLiteral? {body : List Char} (h : IsWordBody body) (s : List Char) :
    splitLiteral? (body ++ '"' :: s) = some (body ++ ['"'], s) := by
  obtain ⟨w, hw⟩ := h
  obtain ⟨-, body', hb, hp, hs⟩ := isPassed_of_mem_bareWords hw
  simp only [List.cons_append, List.cons.injEq, List.append_cancel_right_eq, true_and] at hb
  rw [hb, splitLiteral?_passed (fun c hc => (hp c hc).1) hs, FloatMap.splitLiteral?]
  rfl

/-- How a colon is copied: alone, or with the literal of a word after it. -/
theorem replaceWords_colon_cases (s : List Char) :
    (splitBareWord? (s.dropWhile isGap) = none ∧ replaceWords (':' :: s) = ':' :: replaceWords s) ∨
      ∃ w body r, (w, '"' :: body ++ ['"']) ∈ bareWords ∧ s = s.takeWhile isGap ++ w ++ r ∧
        endsValue r = true ∧
        replaceWords (':' :: s) = ':' :: s.takeWhile isGap ++ '"' :: (body ++ '"' :: replaceWords r) := by
  cases h : splitBareWord? (s.dropWhile isGap) with
  | none => exact Or.inl ⟨rfl, replaceWords_colon h⟩
  | some lr =>
    obtain ⟨l, r⟩ := lr
    obtain ⟨w, hw, hs, he⟩ := splitBareWord?_eq_some h
    obtain ⟨-, body, hb, -, -⟩ := isPassed_of_mem_bareWords hw
    dsimp only at hb
    subst hb
    refine Or.inr ⟨w, body, r, hw, ?_, he, ?_⟩
    · rw [List.append_assoc, ← hs, List.takeWhile_append_dropWhile]
    · rw [replaceWords_word h]
      simp

/-- No quote and no backslash stand in a gap or in a bare word. -/
theorem splitLiteral?_gap_word {s w r : List Char} {l : List Char} (hw : (w, l) ∈ bareWords)
    (hs : s = s.takeWhile isGap ++ w ++ r) (h : splitLiteral? s = none) : splitLiteral? r = none := by
  have hgap : ∀ c ∈ s.takeWhile isGap, IsPassed c ∧ c ≠ '\\' :=
    fun c hc => isPassed_of_isGap (List.mem_takeWhile_imp hc)
  have hword : ∀ c ∈ w, c ≠ '"' ∧ c ≠ '\\' := by
    simp only [bareWords, List.mem_cons, List.not_mem_nil, or_false, Prod.mk.injEq] at hw
    rcases hw with ⟨rfl, -⟩ | ⟨rfl, -⟩ | ⟨rfl, -⟩ <;>
      exact forall_mem_of_all (by decide)
  rw [hs, List.append_assoc,
    splitLiteral?_passed (fun c hc => (hgap c hc).1.1) fun c hc => (hgap c hc).2,
    splitLiteral?_passed (fun c hc => (hword c hc).1) fun c hc => (hword c hc).2] at h
  simpa using h

/-- **A literal that only the mending has made.** If a quote opens no literal in `s` and opens one in
the mended `s`, then this ends at the first quote of a replaced word. What follows is the rest of that
word, its second quote, and a text that was mended after a quote that opened no literal either. -/
theorem splitLiteral?_replaceWords {s literal u : List Char} (h : splitLiteral? s = none)
    (hu : splitLiteral? (replaceWords s) = some (literal, u)) :
    ∃ body r, IsWordBody body ∧ u = body ++ '"' :: replaceWords r ∧ splitLiteral? r = none ∧
      r.length < s.length := by
  induction hn : s.length using Nat.strong_induction_on generalizing s literal with
  | h n ih =>
    -- what is known of a shorter text that is open to the left in the same way
    have step : ∀ {t l : List Char}, t.length < n → splitLiteral? t = none →
        splitLiteral? (replaceWords t) = some (l, u) → ∃ body r, IsWordBody body ∧
          u = body ++ '"' :: replaceWords r ∧ splitLiteral? r = none ∧ r.length < n := by
      intro t l ht hnone hsome
      obtain ⟨body, r, hb, hur, hr, hlen⟩ := ih t.length ht hnone hsome rfl
      exact ⟨body, r, hb, hur, hr, by omega⟩
    cases s with
    | nil => rw [replaceWords_nil] at hu; cases hu
    | cons c s =>
      simp only [List.length_cons] at hn
      by_cases hq : c = '"'
      · -- a quote closes the literal in both texts
        subst hq; cases h
      by_cases hb : c = '\\'
      · -- a backslash takes the character after it along, which the walk still looks at
        subst hb
        rw [replaceWords_cons (by decide) (by decide)] at hu
        cases s with
        | nil => rw [replaceWords_nil] at hu; cases hu
        | cons e s =>
          simp only [List.length_cons] at hn
          by_cases hnl : e = '\n'
          · subst hnl
            rw [replaceWords_cons (by decide) (by decide), FloatMap.splitLiteral?, if_pos rfl] at hu
            cases hu
          rw [splitLiteral?_escape hnl, Option.map_eq_none_iff] at h
          by_cases hec : e = ':'
          · -- the escape hides nothing of a colon: its text ends where it would end without it
            subst hec
            have h' : splitLiteral? (':' :: s) = none := by
              rw [splitLiteral?_cons (by decide) (by decide), h]; rfl
            obtain ⟨z, hz⟩ := List.head?_eq_some_iff.1 (head?_replaceWords (':' :: s))
            rw [hz, splitLiteral?_escape (by decide)] at hu
            obtain ⟨l, hl⟩ := exists_of_map hu fun _ => rfl
            have hz' : splitLiteral? (replaceWords (':' :: s)) = some (':' :: l, u) := by
              rw [hz, splitLiteral?_cons (by decide) (by decide), hl]; rfl
            exact step (by simp only [List.length_cons]; omega) h' hz'
          · have hcopy : replaceWords (e :: s) = e :: replaceWords s := by
              by_cases heq : e = '"'
              · subst heq; exact replaceWords_quote h
              · exact replaceWords_cons heq hec
            rw [hcopy, splitLiteral?_escape hnl] at hu
            obtain ⟨l, hl⟩ := exists_of_map hu fun _ => rfl
            exact step (by omega) h hl
      rw [splitLiteral?_cons hq hb, Option.map_eq_none_iff] at h
      by_cases hc : c = ':'
      · subst hc
        rcases replaceWords_colon_cases s with ⟨-, hcopy⟩ | ⟨w, body, r, hw, hs, -, hcopy⟩
        · rw [hcopy, splitLiteral?_cons hq hb] at hu
          obtain ⟨l, hl⟩ := exists_of_map hu fun _ => rfl
          exact step (by omega) h hl
        · -- the first quote that the mending puts in is where the literal ends
          have hgap : ∀ d ∈ ':' :: s.takeWhile isGap, d ≠ '"' ∧ d ≠ '\\' := by
            intro d hd
            rcases List.mem_cons.1 hd with rfl | hd
            · exact ⟨hq, hb⟩
            · have := isPassed_of_isGap (List.mem_takeWhile_imp hd)
              exact ⟨this.1.1, this.2⟩
          rw [hcopy, splitLiteral?_passed (fun d hd => (hgap d hd).1) fun d hd => (hgap d hd).2,
            FloatMap.splitLiteral?] at hu
          simp only [Option.map_some, Option.some.injEq, Prod.mk.injEq] at hu
          refine ⟨body, r, ⟨w, hw⟩, hu.2.symm, splitLiteral?_gap_word hw hs h, ?_⟩
          have := congrArg List.length hs
          simp only [List.length_append] at this
          omega
      · rw [replaceWords_cons hq hc, splitLiteral?_cons hq hb] at hu
        obtain ⟨l, hl⟩ := exists_of_map hu fun _ => rfl
        exact step (by omega) h hl

/-- A quote that opened no literal, put back in front of the mended text. It may open a literal now,
but then the walk goes on after the first quote of a replaced word and is soon in front of its second,
which stands as the first one did. -/
theorem replaceWords_quote_replaceWords {n : ℕ}
    (hidem : ∀ t : List Char, t.length < n → replaceWords (replaceWords t) = replaceWords t) :
    ∀ (m : ℕ) (t : List Char), t.length = m → m < n → splitLiteral? t = none →
      replaceWords ('"' :: replaceWords t) = '"' :: replaceWords t := by
  intro m
  induction m using Nat.strong_induction_on with
  | h m ih =>
    intro t ht hm hopen
    cases h : splitLiteral? (replaceWords t) with
    | none => rw [replaceWords_quote h, hidem t (by omega)]
    | some lu =>
      obtain ⟨l, u⟩ := lu
      obtain ⟨body, r, hbody, hu, hr, hlen⟩ := splitLiteral?_replaceWords hopen h
      -- from the word to its second quote nothing is replaced, and there the induction takes over
      have hrest : replaceWords u = u := by
        rw [hu, replaceWords_append hbody.isPassed, ih r.length (by omega) r rfl (by omega) hr]
      rw [replaceWords_literal h, hrest, List.cons_append, ← splitLiteral?_append h]

/-- **A second walk changes nothing.** -/
theorem replaceWords_replaceWords (s : List Char) : replaceWords (replaceWords s) = replaceWords s := by
  -- the steps of the walk are of different lengths, so the induction is on the length of the text
  induction hn : s.length using Nat.strong_induction_on generalizing s with
  | h n ih =>
    have hidem : ∀ t : List Char, t.length < n → replaceWords (replaceWords t) = replaceWords t :=
      fun t ht => ih t.length ht t rfl
    cases s with
    | nil => rw [replaceWords_nil, replaceWords_nil]
    | cons c s =>
      simp only [List.length_cons] at hn
      by_cases hq : c = '"'
      · subst hq
        cases h : splitLiteral? s with
        | none => rw [replaceWords_quote h, replaceWords_quote_replaceWords hidem _ s rfl (by omega) h]
        | some lr =>
          obtain ⟨l, r⟩ := lr
          have hr : r.length ≤ s.length := by
            have := congrArg List.length (splitLiteral?_append h)
            rw [List.length_append] at this
            omega
          rw [replaceWords_literal h, List.cons_append,
            replaceWords_literal (splitLiteral?_append_right h _), hidem r (by omega)]
          rfl
      by_cases hc : c = ':'
      · subst hc
        rcases replaceWords_colon_cases s with ⟨hw, hcopy⟩ | ⟨w, body, r, hw, hs, -, hcopy⟩
        · have hgap : splitBareWord? ((replaceWords s).dropWhile isGap) = none := by
            rw [dropWhile_replaceWords fun c hc => (isPassed_of_isGap hc).1]
            exact splitBareWord?_replaceWords hw
          rw [hcopy, replaceWords_colon hgap, hidem s (by omega)]
        · have hbody : IsWordBody body := ⟨w, hw⟩
          have hr : r.length ≤ s.length := by
            have := congrArg List.length hs
            simp only [List.length_append] at this
            omega
          -- the literal stands where the word stood, so after the gap comes a quote
          have hgap : splitBareWord? ((s.takeWhile isGap ++ '"' :: (body ++ '"' :: replaceWords r)).dropWhile
              isGap) = none := by
            rw [List.dropWhile_append_of_pos fun c hc => List.mem_takeWhile_imp hc]
            rfl
          rw [hcopy, List.cons_append, replaceWords_colon hgap,
            replaceWords_append fun c hc => (isPassed_of_isGap (List.mem_takeWhile_imp hc)).1,
            replaceWords_literal (hbody.splitLiteral? _), hidem r (by omega)]
          simp
      · rw [replaceWords_cons hq hc, replaceWords_cons hq hc, hidem s (by omega)]

/-! ## Mending twice -/

/-- A mended text has only characters of the text and of the literals of bare words. -/
theorem mem_replaceWords {c : Char} {s : List Char} (h : c ∈ replaceWords s) :
    c ∈ s ∨ ∃ w ∈ bareWords, c ∈ w.2 := by
  fun_induction replaceWords s with
  | case1 => cases h
  | case2 s literal rest hs _ ih =>
    rw [splitLiteral?_append hs]
    simp only [List.cons_append, List.mem_cons, List.mem_append] at h ⊢
    rcases h with h | h | h
    · exact Or.inl (Or.inl h)
    · exact Or.inl (Or.inr (Or.inl h))
    · rcases ih h with h | h
      · exact Or.inl (Or.inr (Or.inr h))
      · exact Or.inr h
  | case3 s hs ih =>
    simp only [List.mem_cons] at h ⊢
    rcases h with h | h
    · exact Or.inl (Or.inl h)
    · exact (ih h).imp_left Or.inr
  | case4 s literal rest hs _ ih =>
    obtain ⟨w, hw, hd, -⟩ := splitBareWord?_eq_some hs
    have hmem : ∀ d, d ∈ s.takeWhile isGap ∨ d ∈ rest → d ∈ s := by
      intro d hd'
      rw [← List.takeWhile_append_dropWhile (p := isGap) (l := s), hd, List.mem_append, List.mem_append]
      rcases hd' with hd' | hd'
      · exact Or.inl hd'
      · exact Or.inr (Or.inr hd')
    simp only [List.cons_append, List.mem_cons, List.mem_append] at h ⊢
    rcases h with h | (h | h) | h
    · exact Or.inl (Or.inl h)
    · exact Or.inl (Or.inr (hmem c (Or.inl h)))
    · exact Or.inr ⟨_, hw, h⟩
    · rcases ih h with h | h
      · exact Or.inl (Or.inr (hmem c (Or.inr h)))
      · exact Or.inr h
  | case5 s hs ih =>
    simp only [List.mem_cons] at h ⊢
    rcases h with h | h
    · exact Or.inl (Or.inl h)
    · exact (ih h).imp_left Or.inr
  | case6 d s _ _ ih =>
    simp only [List.mem_cons] at h ⊢
    rcases h with h | h
    · exact Or.inl (Or.inl h)
    · exact (ih h).imp_left Or.inr

/-- A mended text has no no-break spaces. -/
theorem map_plainSpace_repair (raw : List Char) : (repair raw).map plainSpace = repair raw := by
  have hkeep : ∀ c ∈ repair raw, plainSpace c = c := by
    intro c hc
    rcases mem_replaceWords hc with hc | ⟨w, hw, hc⟩
    · obtain ⟨d, -, rfl⟩ := List.mem_map.1 hc
      by_cases hd : d = '\u00A0'
      · subst hd; decide
      · unfold plainSpace; rw [if_neg hd, if_neg hd]
    · have hall : ∀ w ∈ bareWords, w.2.all (fun c => decide (plainSpace c = c)) = true := by decide
      exact forall_mem_of_all (hall w hw) c hc
  exact (List.map_congr_left hkeep).trans (List.map_id _)

/-- **Mending is idempotent**, on every text. -/
theorem sanitize_sanitize (raw : String) : sanitize (sanitize raw) = sanitize raw := by
  unfold sanitize
  rw [String.toList_ofList, repair, map_plainSpace_repair, repair, replaceWords_replaceWords]

end Demotion.FloatMap
