import Demotion.Proofs.Json.Leaves

/-!
# The reader reads exactly the grammar

`readText_iff`: **the reader takes a text and gives a value exactly if the grammar says that the text
has that value.** Integers of any length are read (no digit limit). With a digit limit no other text is
taken (`text_of_read`).

Both directions go up the layers of the reader: white space, items between commas, containers, members,
and values by induction on how deep containers may stand. The way up is the same for any kind of item;
what an item owes is stated once (`Reader.Reads`): it is read wherever something follows that may follow
a value, and it starts with a character that neither white space nor a closing bracket starts with.
-/

namespace Demotion.Json

open Style (plain)

/-! ## White space -/

theorem Style.Blanks.trans {S : Style} {s t rest : List Char} (h : S.Blanks s t) (h' : S.Blanks t rest) :
    S.Blanks s rest := by
  induction h with
  | none => exact h'
  | more hc _ ih => exact .more hc (ih h')

theorem blanks_skipSpace (s : List Char) : plain.Blanks s (skipSpace s) := by
  induction s with
  | nil => exact .none
  | cons c s ih =>
    unfold skipSpace at ih ⊢
    by_cases hc : isSpace c = true
    · rw [List.dropWhile_cons_of_pos hc]
      exact .more hc ih
    · rw [List.dropWhile_cons_of_neg hc]
      exact .none

theorem skipSpace_of_blanks {s rest : List Char} (h : plain.Blanks s rest) : skipSpace s = skipSpace rest := by
  induction h with
  | none => rfl
  | more hc _ ih => rw [← ih]; exact List.dropWhile_cons_of_pos hc

theorem skipSpace_cons {c : Char} {s : List Char} (hc : isSpace c = false) : skipSpace (c :: s) = c :: s :=
  List.dropWhile_cons_of_neg (by rw [hc]; exact Bool.false_ne_true)

/-- White space, and then the end or a character that may follow a value. -/
theorem follows_of_blanks {s rest : List Char} (h : plain.Blanks s rest) (hr : Follows rest) : Follows s := by
  cases h with
  | none => exact hr
  | more hc _ => intro d hd; obtain rfl := Option.some.inj hd; exact Or.inl hc

theorem follows_nil : Follows [] := by
  intro c hc; cases hc

theorem follows_cons {c : Char} (h : c = ',' ∨ c = ']' ∨ c = '\x7d') (s : List Char) : Follows (c :: s) := by
  intro d hd; obtain rfl := Option.some.inj hd; exact Or.inr h

/-! ## Items -/

/-- A character that neither white space nor a closing bracket starts with. -/
def IsStart (c : Char) : Prop := isSpace c = false ∧ c ≠ ']' ∧ c ≠ '\x7d'

/-- A part of the reader reads only what a rule says. -/
def Reader.Obeys {α : Type} (r : Reader α) (rule : List Char → α → List Char → Prop) : Prop :=
  ∀ {s : List Char} {a : α} {rest : List Char}, r.Gives s a rest → rule s a rest

/-- A part of the reader reads exactly what a rule says. -/
structure Reader.Reads {α : Type} (r : Reader α) (rule : List Char → α → List Char → Prop) : Prop where
  sound : r.Obeys rule
  complete : ∀ {s : List Char} {a : α} {rest : List Char}, rule s a rest → Follows rest → r.Gives s a rest
  start : ∀ {s : List Char} {a : α} {rest : List Char}, rule s a rest → ∃ c t, s = c :: t ∧ IsStart c

theorem Style.Items.blanks {S : Style} {α : Type} {item : List Char → α → List Char → Prop} {close : Char}
    {s t rest : List Char} {as : List α} (hb : S.Blanks s t) (h : S.Items item close t as rest) :
    S.Items item close s as rest := by
  cases h with
  | last h₁ ha h₂ => exact .last (hb.trans h₁) ha h₂
  | more h₁ ha h₂ h => exact .more (hb.trans h₁) ha h₂ h

section Items

variable {α : Type} {item : Reader α} {rule : List Char → α → List Char → Prop} {close : Char}

theorem readItems_sound (hitem : item.Obeys rule) {s rest : List Char} {as : List α}
    (h : (readItems item close).Gives s as rest) : plain.Items rule close s as rest := by
  -- the reader goes on after the white space behind a comma, so the induction is on the length
  induction hn : s.length using Nat.strong_induction_on generalizing s as with
  | h n ih =>
    obtain ⟨hlen, h⟩ := h
    rw [readItems] at h
    split at h
    · cases h
    · rename_i a left hleft ha
      have hrule := hitem ⟨hleft, ha⟩
      have hblanks := blanks_skipSpace left
      split at h
      · cases h
      · rename_i c tail htail
        rw [htail] at hblanks
        have htail_len : tail.length + 1 ≤ left.length := by
          have := skipSpace_length left
          rwa [htail, List.length_cons] at this
        split at h
        · rename_i hc
          subst hc
          simp only [Except.ok.injEq, Prod.mk.injEq, Subtype.mk.injEq] at h
          obtain ⟨rfl, rfl⟩ := h
          exact .last .none hrule hblanks
        · split at h
          · rename_i hc
            subst hc
            dsimp only at h
            split at h
            · cases h
            · rename_i bs left' hleft' hbs
              simp only [Except.ok.injEq, Prod.mk.injEq, Subtype.mk.injEq] at h
              obtain ⟨rfl, rfl⟩ := h
              have hskip := skipSpace_length tail
              have hitems := ih _ (by omega) ⟨hleft', hbs⟩ rfl
              exact .more .none hrule hblanks (hitems.blanks (blanks_skipSpace tail))
          · cases h

theorem readItems_last {s left tail : List Char} {a : α} (ha : item.Gives s a left)
    (hskip : skipSpace left = close :: tail) : (readItems item close).Gives s [a] tail := by
  obtain ⟨hlen, ha⟩ := ha
  have hlen' := skipSpace_length left
  rw [hskip, List.length_cons] at hlen'
  refine ⟨by omega, ?_⟩
  rw [readItems, ha]
  dsimp only
  split
  · rename_i hnil; rw [hskip] at hnil; cases hnil
  · rename_i htail
    rw [hskip] at htail
    obtain ⟨rfl, rfl⟩ := List.cons.inj htail
    rw [if_pos rfl]

theorem readItems_more {s left tail rest : List Char} {a : α} {as : List α} (ha : item.Gives s a left)
    (hskip : skipSpace left = ',' :: tail) (hcomma : ',' ≠ close)
    (has : (readItems item close).Gives (skipSpace tail) as rest) :
    (readItems item close).Gives s (a :: as) rest := by
  obtain ⟨hlen, ha⟩ := ha
  obtain ⟨hlen_rest, has⟩ := has
  have hlen_left := skipSpace_length left
  rw [hskip, List.length_cons] at hlen_left
  have hlen_tail := skipSpace_length tail
  refine ⟨by omega, ?_⟩
  rw [readItems, ha]
  dsimp only
  split
  · rename_i hnil; rw [hskip] at hnil; cases hnil
  · rename_i htail
    rw [hskip] at htail
    obtain ⟨rfl, rfl⟩ := List.cons.inj htail
    rw [if_neg hcomma, if_pos rfl, has]

theorem readItems_complete (hitem : item.Reads rule) (hclose : close = ']' ∨ close = '\x7d')
    {s rest : List Char} {as : List α} (h : plain.Items rule close s as rest) :
    (readItems item close).Gives (skipSpace s) as rest := by
  have hspace : isSpace close = false := by rcases hclose with rfl | rfl <;> decide
  have hcomma : ',' ≠ close := by rcases hclose with rfl | rfl <;> decide
  induction h with
  | last h₁ ha h₂ =>
    obtain ⟨c, t, rfl, hc⟩ := hitem.start ha
    rw [skipSpace_of_blanks h₁, skipSpace_cons hc.1]
    exact readItems_last (hitem.complete ha (follows_of_blanks h₂ (follows_cons (Or.inr hclose) _)))
      ((skipSpace_of_blanks h₂).trans (skipSpace_cons hspace))
  | more h₁ ha h₂ _ ih =>
    obtain ⟨c, t, rfl, hc⟩ := hitem.start ha
    rw [skipSpace_of_blanks h₁, skipSpace_cons hc.1]
    exact readItems_more (hitem.complete ha (follows_of_blanks h₂ (follows_cons (Or.inl rfl) _)))
      ((skipSpace_of_blanks h₂).trans (skipSpace_cons (by decide))) hcomma ih

theorem readContainer_sound (hitem : item.Obeys rule) {s rest : List Char} {as : List α}
    {hlen : rest.length ≤ s.length} (h : readContainer item close s = .ok (as, ⟨rest, hlen⟩)) :
    plain.Container rule close s as rest := by
  have hblanks := blanks_skipSpace s
  unfold readContainer at h
  split at h
  · split at h
    · cases h
    · rename_i left hleft _
      simp at hleft
  · rename_i c tail hs
    rw [hs] at hblanks
    split at h
    · rename_i hc
      subst hc
      simp only [Except.ok.injEq, Prod.mk.injEq, Subtype.mk.injEq] at h
      obtain ⟨rfl, rfl⟩ := h
      exact .empty hblanks
    · split at h
      · cases h
      · rename_i bs left hleft hbs
        simp only [Except.ok.injEq, Prod.mk.injEq, Subtype.mk.injEq] at h
        obtain ⟨rfl, rfl⟩ := h
        exact .items ((readItems_sound hitem ⟨hleft, hbs⟩).blanks hblanks)

/-- The first item of a container starts neither with white space nor with the closing bracket. -/
theorem Style.Items.start (hitem : item.Reads rule) {s rest : List Char} {as : List α}
    (h : plain.Items rule close s as rest) : ∃ c t, skipSpace s = c :: t ∧ IsStart c := by
  have key : ∀ {s₁ s₂ : List Char} {a : α}, plain.Blanks s s₁ → rule s₁ a s₂ →
      ∃ c t, skipSpace s = c :: t ∧ IsStart c := by
    intro s₁ s₂ a hb ha
    obtain ⟨c, t, rfl, hc⟩ := hitem.start ha
    exact ⟨c, t, (skipSpace_of_blanks hb).trans (skipSpace_cons hc.1), hc⟩
  cases h with
  | last h₁ ha _ => exact key h₁ ha
  | more h₁ ha _ _ => exact key h₁ ha

theorem readContainer_complete (hitem : item.Reads rule) (hclose : close = ']' ∨ close = '\x7d')
    {s rest : List Char} {as : List α} (h : plain.Container rule close s as rest) :
    ∃ hlen, readContainer item close s = .ok (as, ⟨rest, hlen⟩) := by
  have hspace : isSpace close = false := by rcases hclose with rfl | rfl <;> decide
  have hskip := skipSpace_length s
  cases h with
  | empty h =>
    have hs := (skipSpace_of_blanks h).trans (skipSpace_cons hspace)
    rw [hs, List.length_cons] at hskip
    refine ⟨by omega, ?_⟩
    unfold readContainer
    split
    · rename_i hnil; rw [hs] at hnil; cases hnil
    · rename_i hcons
      rw [hs] at hcons
      obtain ⟨rfl, rfl⟩ := List.cons.inj hcons
      rw [if_pos rfl]
  | items h =>
    obtain ⟨c, t, hs, hc⟩ := h.start hitem
    have hgives := readItems_complete hitem hclose h
    rw [hs] at hgives hskip
    obtain ⟨hlen, hread⟩ := hgives
    -- the closing bracket is looked for first, but no item starts with it
    have hne : c ≠ close := by
      rcases hclose with rfl | rfl
      · exact hc.2.1
      · exact hc.2.2
    refine ⟨by omega, ?_⟩
    unfold readContainer
    split
    · rename_i hnil; rw [hs] at hnil; cases hnil
    · rename_i hcons
      rw [hs] at hcons
      obtain ⟨rfl, rfl⟩ := List.cons.inj hcons
      rw [if_neg hne, hread]

end Items

/-! ## Members and values -/

theorem readString_gives {s rest : List Char} {p : Content} :
    Reader.Gives readString s p rest ↔ plain.Literal s p rest := by
  constructor
  · rintro ⟨hlen, h⟩
    exact (readString_iff hlen).1 h
  · intro h
    have hlen : rest.length < s.length := by
      obtain ⟨ps, hps, -⟩ := literal_complete h
      exact readUnits_length (readUnits_complete hps s)
    exact ⟨hlen, (readString_iff hlen).2 h⟩

theorem readMember_sound {value : Reader Json} {rule : List Char → Json → List Char → Prop}
    (hvalue : value.Obeys rule) {s rest : List Char} {m : Content × Json}
    (h : (readMember value).Gives s m rest) : plain.Member rule s m rest := by
  obtain ⟨hlen, h⟩ := h
  unfold readMember at h
  split at h
  · rename_i s
    split at h
    · cases h
    · rename_i name left hleft hname
      have hliteral := readString_gives.1 ⟨hleft, hname⟩
      have hcolon := blanks_skipSpace left
      split at h
      · rename_i tail htail
        rw [htail] at hcolon
        split at h
        · cases h
        · rename_i v left' hleft' hv
          simp only [Except.ok.injEq, Prod.mk.injEq, Subtype.mk.injEq] at h
          obtain ⟨rfl, rfl⟩ := h
          exact .value hliteral hcolon (blanks_skipSpace tail) (hvalue ⟨hleft', hv⟩)
      · cases h
  · cases h

theorem readMember_complete {value : Reader Json} {rule : List Char → Json → List Char → Prop}
    (hvalue : value.Reads rule) {s rest : List Char} {m : Content × Json}
    (h : plain.Member rule s m rest) (hr : Follows rest) : (readMember value).Gives s m rest := by
  cases h with
  | bare _ _ hv => exact hv.elim
  | value hn hc hb hv =>
    rename_i s s₁ s₂ s₃ name v
    obtain ⟨c, t, rfl, hstart⟩ := hvalue.start hv
    obtain ⟨hlen₁, hname⟩ := readString_gives.2 hn
    have hcolon := (skipSpace_of_blanks hc).trans (skipSpace_cons (by decide))
    have hskip := (skipSpace_of_blanks hb).trans (skipSpace_cons hstart.1)
    have hgives := hvalue.complete hv hr
    rw [← hskip] at hgives
    obtain ⟨hlen₂, hread⟩ := hgives
    have h₁ := skipSpace_length s₁
    have h₂ := skipSpace_length s₂
    rw [hcolon, List.length_cons] at h₁
    refine ⟨by rw [List.length_cons]; omega, ?_⟩
    unfold readMember
    simp only [hname]
    split
    · rename_i tail htail
      rw [hcolon] at htail
      obtain ⟨-, rfl⟩ := List.cons.inj htail
      rw [hread]
    · rename_i hne
      exact absurd hcolon (hne s₂)

theorem readMember_reads {value : Reader Json} {rule : List Char → Json → List Char → Prop}
    (hvalue : value.Reads rule) : (readMember value).Reads (plain.Member rule) where
  sound h := readMember_sound hvalue.sound h
  complete h hr := readMember_complete hvalue h hr
  start h := by cases h <;> exact ⟨_, _, rfl, by decide, by decide, by decide⟩

theorem ne_of_isDigit {c d : Char} (hc : c.isDigit = true) (hd : d.isDigit = false) : c ≠ d := by
  rintro rfl
  rw [hc] at hd
  cases hd

/-- A character that a value may start with. -/
def StartsValue (c : Char) : Prop :=
  c.isDigit = true ∨ c ∈ ['"', '[', '\x7b', 'n', 't', 'f', 'N', 'I', '-']

theorem StartsValue.ne {c d : Char} (h : StartsValue c) (hd : d.isDigit = false)
    (hd' : d ∉ ['"', '[', '\x7b', 'n', 't', 'f', 'N', 'I', '-']) : c ≠ d := by
  rcases h with h | h
  · exact ne_of_isDigit h hd
  · rintro rfl; exact hd' h

theorem StartsValue.isStart {c : Char} (h : StartsValue c) : IsStart c := by
  refine ⟨?_, h.ne (by decide) (by decide), h.ne (by decide) (by decide)⟩
  unfold isSpace
  simp only [Bool.or_eq_false_iff, decide_eq_false_iff_not]
  exact ⟨⟨⟨h.ne (by decide) (by decide), h.ne (by decide) (by decide)⟩, h.ne (by decide) (by decide)⟩,
    h.ne (by decide) (by decide)⟩

theorem Style.Scalar.start {S : Style} {s rest : List Char} {v : Json} (h : S.Scalar s v rest) :
    ∃ c t, s = c :: t ∧ StartsValue c ∧ c ≠ '[' ∧ c ≠ '\x7b' := by
  unfold StartsValue
  cases h with
  | null => exact ⟨_, _, rfl, by decide⟩
  | true => exact ⟨_, _, rfl, by decide⟩
  | false => exact ⟨_, _, rfl, by decide⟩
  | constant hw =>
    simp only [List.mem_cons, List.not_mem_nil, or_false] at hw
    rcases hw with rfl | rfl | rfl <;> exact ⟨_, _, rfl, by decide⟩
  | number hw =>
    cases hw with
    | mk hs hwhole _ _ =>
      obtain ⟨c, whole, rfl, hc⟩ := hwhole.head
      rcases hs with rfl | rfl
      · exact ⟨c, _, rfl, Or.inl hc, ne_of_isDigit hc (by decide), ne_of_isDigit hc (by decide)⟩
      · exact ⟨_, _, rfl, by decide⟩
  | string _ => exact ⟨_, _, rfl, by decide⟩

theorem Style.Scalar.head?_ne_quote {S : Style} {s rest : List Char} {v : Json} (h : S.Scalar s v rest)
    (hv : ∀ p, v ≠ .string p) : s.head? ≠ some '"' := by
  cases h with
  | null => simp
  | true => simp
  | false => simp
  | constant hw =>
    simp only [List.mem_cons, List.not_mem_nil, or_false] at hw
    rcases hw with rfl | rfl | rfl <;> simp
  | number hw =>
    cases hw with
    | mk hs hwhole _ _ =>
      obtain ⟨c, whole, rfl, hc⟩ := hwhole.head
      have hq : c ≠ '"' := ne_of_isDigit hc (by decide)
      rcases hs with rfl | rfl <;> simp [hq]
  | string _ => exact absurd rfl (hv _)

theorem Style.Value.start {S : Style} {depth : Nat} {s rest : List Char} {v : Json}
    (h : S.Value depth s v rest) : ∃ c t, s = c :: t ∧ StartsValue c := by
  have key : ∀ {v : Json}, S.Scalar s v rest → ∃ c t, s = c :: t ∧ StartsValue c := by
    intro v h
    obtain ⟨c, t, hs, hc, -⟩ := h.start
    exact ⟨c, t, hs, hc⟩
  cases depth with
  | zero => exact key h
  | succ depth =>
    cases h with
    | scalar h => exact key h
    | array _ => exact ⟨_, _, rfl, by unfold StartsValue; decide⟩
    | object _ => exact ⟨_, _, rfl, by unfold StartsValue; decide⟩

section Values

variable {limit : Option Nat} {depth : Nat} {s rest : List Char} {v : Json}

theorem readValue_string :
    (readValue limit depth).Gives ('"' :: s) v rest ↔ ∃ p, v = .string p ∧ plain.Literal s p rest := by
  have hread : readValue limit depth ('"' :: s) = readValue limit 0 ('"' :: s) := by cases depth <;> rfl
  constructor
  · rintro ⟨hlen, h⟩
    rw [hread, readValue] at h
    split at h
    · cases h
    · rename_i p left hleft hp
      simp only [Except.ok.injEq, Prod.mk.injEq, Subtype.mk.injEq] at h
      obtain ⟨rfl, rfl⟩ := h
      exact ⟨p, rfl, readString_gives.1 ⟨hleft, hp⟩⟩
  · rintro ⟨p, rfl, h⟩
    obtain ⟨hlen, hp⟩ := readString_gives.2 h
    exact ⟨by rw [List.length_cons]; omega, by rw [hread, readValue, hp]⟩

theorem readValue_plain (hq : s.head? ≠ some '"') (hb : s.head? ≠ some '[') (hc : s.head? ≠ some '\x7b') :
    readValue limit depth s = readPlain limit s := by
  rw [readValue]
  · exact fun _ h => hq (by rw [h]; rfl)
  · exact fun _ _ h => hb (by rw [h]; rfl)
  · exact fun _ _ h => hc (by rw [h]; rfl)
  · exact fun _ _ _ h => hb (by rw [h]; rfl)
  · exact fun _ _ _ h => hc (by rw [h]; rfl)

theorem readValue_array :
    (readValue limit (depth + 1)).Gives ('[' :: s) v rest ↔
      ∃ items hlen, v = .array items ∧
        readContainer (readValue limit depth) ']' s = .ok (items, ⟨rest, hlen⟩) := by
  constructor
  · rintro ⟨hlen, h⟩
    rw [readValue] at h
    split at h
    · cases h
    · rename_i items left hleft hitems
      simp only [Except.ok.injEq, Prod.mk.injEq, Subtype.mk.injEq] at h
      obtain ⟨rfl, rfl⟩ := h
      exact ⟨items, hleft, rfl, hitems⟩
  · rintro ⟨items, hlen, rfl, h⟩
    exact ⟨by rw [List.length_cons]; omega, by rw [readValue, h]⟩

theorem readValue_object :
    (readValue limit (depth + 1)).Gives ('\x7b' :: s) v rest ↔
      ∃ members hlen, v = .object members ∧
        readContainer (readMember (readValue limit depth)) '\x7d' s = .ok (members, ⟨rest, hlen⟩) := by
  constructor
  · rintro ⟨hlen, h⟩
    rw [readValue] at h
    split at h
    · cases h
    · rename_i members left hleft hmembers
      simp only [Except.ok.injEq, Prod.mk.injEq, Subtype.mk.injEq] at h
      obtain ⟨rfl, rfl⟩ := h
      exact ⟨members, hleft, rfl, hmembers⟩
  · rintro ⟨members, hlen, rfl, h⟩
    exact ⟨by rw [List.length_cons]; omega, by rw [readValue, h]⟩

/-- A value that is no container is read at every depth. -/
theorem readValue_scalar (h : plain.Scalar s v rest) (hr : Follows rest) :
    (readValue none depth).Gives s v rest := by
  obtain ⟨c, t, hs, -, hb, hc⟩ := h.start
  by_cases hv : ∃ p, v = .string p
  · obtain ⟨p, rfl⟩ := hv
    cases h with
    | string h => exact readValue_string.2 ⟨p, rfl, h⟩
  · have hq : s.head? ≠ some '"' := h.head?_ne_quote fun p hp => hv ⟨p, hp⟩
    have hne : ∀ d, c ≠ d → s.head? ≠ some d := fun d hd h => hd (by rw [hs] at h; exact Option.some.inj h)
    have hplain := readPlain_complete h hq hr
    unfold Reader.Gives at hplain ⊢
    rwa [readValue_plain hq (hne _ hb) (hne _ hc)]

/-- What is read of a text that starts no container. -/
theorem readValue_not_container (h : (readValue limit depth).Gives s v rest) (hb : s.head? ≠ some '[')
    (hc : s.head? ≠ some '\x7b') : plain.Scalar s v rest := by
  by_cases hq : s.head? = some '"'
  · obtain ⟨t, rfl⟩ := List.head?_eq_some_iff.1 hq
    obtain ⟨p, rfl, hp⟩ := readValue_string.1 h
    exact .string hp
  · unfold Reader.Gives at h
    rw [readValue_plain hq hb hc] at h
    exact readPlain_sound h

end Values

/-- What is read is a value of the grammar, with or without a digit limit. By induction on the depth. -/
theorem readValue_sound (limit : Option Nat) (depth : Nat) :
    (readValue limit depth).Obeys (plain.Value depth) := by
  induction depth with
  | zero =>
    intro s v rest h
    by_cases hb : s.head? = some '['
    · obtain ⟨t, rfl⟩ := List.head?_eq_some_iff.1 hb
      obtain ⟨hlen, h⟩ := h
      cases h
    by_cases hc : s.head? = some '\x7b'
    · obtain ⟨t, rfl⟩ := List.head?_eq_some_iff.1 hc
      obtain ⟨hlen, h⟩ := h
      cases h
    exact readValue_not_container h hb hc
  | succ depth ih =>
    intro s v rest h
    by_cases hb : s.head? = some '['
    · obtain ⟨t, rfl⟩ := List.head?_eq_some_iff.1 hb
      obtain ⟨items, hlen, rfl, hitems⟩ := readValue_array.1 h
      exact .array (readContainer_sound ih hitems)
    by_cases hc : s.head? = some '\x7b'
    · obtain ⟨t, rfl⟩ := List.head?_eq_some_iff.1 hc
      obtain ⟨members, hlen, rfl, hmembers⟩ := readValue_object.1 h
      exact .object (readContainer_sound (readMember_sound ih) hmembers)
    exact .scalar (readValue_not_container h hb hc)

/-- **The reader reads exactly the values of the grammar**, by induction on the depth. -/
theorem readValue_reads (depth : Nat) : (readValue none depth).Reads (plain.Value depth) := by
  have hstart : ∀ {depth : Nat} {s rest : List Char} {v : Json}, plain.Value depth s v rest →
      ∃ c t, s = c :: t ∧ IsStart c := by
    intro depth s rest v h
    obtain ⟨c, t, hs, hc⟩ := Style.Value.start h
    exact ⟨c, t, hs, hc.isStart⟩
  induction depth with
  | zero => exact ⟨readValue_sound none 0, fun h hr => readValue_scalar h hr, hstart⟩
  | succ depth ih =>
    refine ⟨readValue_sound none (depth + 1), ?_, hstart⟩
    intro s v rest h hr
    cases h with
    | scalar h => exact readValue_scalar h hr
    | array h =>
      obtain ⟨hlen, hitems⟩ := readContainer_complete ih (Or.inl rfl) h
      exact readValue_array.2 ⟨_, hlen, rfl, hitems⟩
    | object h =>
      obtain ⟨hlen, hmembers⟩ := readContainer_complete (readMember_reads ih) (Or.inr rfl) h
      exact readValue_object.2 ⟨_, hlen, rfl, hmembers⟩

/-! ## Texts -/

theorem readText_sound {depth : Nat} {limit : Option Nat} {s : List Char} {v : Json}
    (h : readText depth limit s = .ok v) : plain.Text depth s v := by
  unfold readText at h
  split at h
  · cases h
  · split at h
    · cases h
    · rename_i v' left hleft hv
      split at h
      · rename_i hend
        obtain rfl := Except.ok.inj h
        refine ⟨_, left, blanks_skipSpace s, readValue_sound limit depth ⟨hleft, hv⟩, ?_⟩
        rw [← hend]
        exact blanks_skipSpace left
      · cases h

theorem readText_complete {depth : Nat} {s : List Char} {v : Json} (h : plain.Text depth s v) :
    readText depth none s = .ok v := by
  obtain ⟨s₁, s₂, hb, hv, he⟩ := h
  obtain ⟨c, t, rfl, hc⟩ := hv.start
  have hskip := (skipSpace_of_blanks hb).trans (skipSpace_cons hc.isStart.1)
  have hgives := (readValue_reads depth).complete hv (follows_of_blanks he follows_nil)
  rw [← hskip] at hgives
  obtain ⟨hlen, hread⟩ := hgives
  -- a byte order mark is neither white space nor the start of a value
  have hhead : s.head? ≠ some '\uFEFF' := by
    intro h
    cases hb with
    | none => exact hc.ne (by decide) (by decide) (Option.some.inj h)
    | more hspace _ =>
      obtain rfl := Option.some.inj h
      exact absurd hspace (by decide)
  unfold readText
  rw [if_neg hhead, hread]
  dsimp only
  rw [skipSpace_of_blanks he]
  rfl

/-- **The reader takes exactly the texts of the grammar**, and gives the values that they have. -/
theorem readText_iff {depth : Nat} {s : List Char} {v : Json} :
    readText depth none s = .ok v ↔ plain.Text depth s v :=
  ⟨readText_sound, readText_complete⟩

theorem read_eq_ok {depth : Nat} {limit : Option Nat} {s : String} {v : Json} :
    read depth limit s = .ok v ↔ readText depth limit s.toList = .ok v := by
  unfold read
  split
  · rename_i w hw
    rw [hw]
    simp
  · rename_i e he
    rw [he]
    simp

theorem read_iff {depth : Nat} {s : String} {v : Json} :
    read depth none s = .ok v ↔ plain.Text depth s.toList v := by
  rw [read_eq_ok, readText_iff]

/-- A digit limit does not let more texts pass. -/
theorem text_of_read {depth : Nat} {limit : Option Nat} {s : String} {v : Json}
    (h : read depth limit s = .ok v) : plain.Text depth s.toList v :=
  readText_sound (read_eq_ok.1 h)

end Demotion.Json
