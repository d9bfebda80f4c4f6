import Demotion.Proofs.Json.Reading

/-!
# Containers that stand too deep

The reader goes into a text from the left, so it stops at a container that stands too deep exactly if all before
the container is as the grammar wants it. What that means is told by the grammar: `Style.Ahead` passes items of a
container up to one of them, and `Style.Overfull` goes through containers in each other in this way until the
depth is used up and a further one opens.

* `readContainer_nested`: where a container stops because an item does.
* `readValue_overflows`: where a value stops, by induction on the depth.
* `readText_nested_iff`: **the reader stops at a container that stands too deep exactly if the text has one.**
-/

namespace Demotion.Json

open Style (plain)

/-! ## The grammar of unfinished texts -/

/-- The character that opens a container. -/
def Container.bracket : Container → Char
  | .array => '['
  | .object => '\x7b'

namespace Style

/-- What is left of a container before one of its items. The items before it have commas behind them. -/
inductive Ahead (S : Style) {α : Type} (item : List Char → α → List Char → Prop) :
    List Char → List Char → Prop where
  | here {s t : List Char} (h : S.Blanks s t) : Ahead S item s t
  | later {s s₁ s₂ s₃ t : List Char} {a : α} (h₁ : S.Blanks s s₁) (ha : item s₁ a s₂)
      (h₂ : S.Blanks s₂ (',' :: s₃)) (h : Ahead S item s₃ t) : Ahead S item s t

/-- A member whose value is, or starts as, `inner` says. -/
inductive MemberWith (S : Style) (inner : List Char → Prop) : List Char → Prop where
  | mk {s s₁ s₂ s₃ : List Char} {name : Content} (hn : S.Literal s name s₁) (hc : S.Blanks s₁ (':' :: s₂))
      (hb : S.Blanks s₂ s₃) (hv : inner s₃) : MemberWith S inner ('"' :: s)

/-- A container with an item that is, or starts as, `inner` says, after items with the values of `value`. -/
inductive Around (S : Style) (value : List Char → Json → List Char → Prop) (inner : List Char → Prop) :
    List Char → Prop where
  | array {s t : List Char} (h : S.Ahead value s t) (ht : inner t) : Around S value inner ('[' :: s)
  | object {s t : List Char} (h : S.Ahead (S.Member value) s t) (ht : S.MemberWith inner t) :
      Around S value inner ('\x7b' :: s)

/-- A text that opens more than `depth` containers in each other, the last of the kind `c`. -/
def Overfull (S : Style) (c : Json.Container) : (depth : Nat) → List Char → Prop
  | 0 => fun s => s.head? = some c.bracket
  | depth + 1 => S.Around (S.Value depth) (S.Overfull c depth)

/-- A text in which a container of the kind `c` stands more than `depth` deep. -/
def TooDeep (S : Style) (depth : Nat) (c : Json.Container) (s : List Char) : Prop :=
  ∃ t, S.Blanks s t ∧ S.Overfull c depth t

end Style

/-! ## Scalars never stand too deep -/

section Scalars

variable {string s : List Char} {c : Container}

theorem readEscape_ne_nested : readEscape string s ≠ .error (.nested c) := by
  unfold readEscape
  split
  · simp
  · split <;> simp
  · simp
  · split <;> simp

theorem readUnits_ne_nested : readUnits string s ≠ .error (.nested c) := by
  fun_induction readUnits string s with
  | case1 => simp
  | case2 => simp
  | case3 rest e he =>
    intro h
    obtain rfl := Except.error.inj h
    exact readEscape_ne_nested he
  | case4 rest p left he hlt e hr ih =>
    intro h
    obtain rfl := Except.error.inj h
    exact ih hr
  | case5 => simp
  | case6 => simp
  | case7 d rest _ _ _ e hr ih =>
    intro h
    obtain rfl := Except.error.inj h
    exact ih hr
  | case8 => simp

theorem readString_ne_nested : readString s ≠ .error (.nested c) := by
  unfold readString
  split
  · rename_i e he
    intro h
    obtain rfl := Except.error.inj h
    exact readUnits_ne_nested he
  · simp

theorem readPlain_ne_nested {limit : Option Nat} : readPlain limit s ≠ .error (.nested c) := by
  unfold readPlain
  split
  · simp
  · split
    · simp
    · split <;> simp
    · simp

/-- Only a bracket starts what can stand too deep. -/
theorem readValue_ne_nested {limit : Option Nat} {depth : Nat} (hb : s.head? ≠ some '[')
    (hc : s.head? ≠ some '\x7b') : readValue limit depth s ≠ .error (.nested c) := by
  by_cases hq : s.head? = some '"'
  · obtain ⟨t, rfl⟩ := List.head?_eq_some_iff.1 hq
    have hread : readValue limit depth ('"' :: t) = readValue limit 0 ('"' :: t) := by cases depth <;> rfl
    rw [hread, readValue]
    split
    · rename_i e he
      intro h
      obtain rfl := Except.error.inj h
      exact readString_ne_nested he
    · simp
  · rw [readValue_plain hq hb hc]
    exact readPlain_ne_nested

end Scalars

/-! ## Items -/

/-- A part of the reader stops at a container of the kind `c` exactly where a rule says. -/
structure Reader.Overflows {α : Type} (r : Reader α) (c : Container) (rule : List Char → Prop) : Prop where
  iff : ∀ {s : List Char}, r s = .error (.nested c) ↔ rule s
  start : ∀ {s : List Char}, rule s → ∃ d t, s = d :: t ∧ IsStart d

theorem Style.Ahead.blanks {S : Style} {α : Type} {item : List Char → α → List Char → Prop} {s s' t : List Char}
    (hb : S.Blanks s s') (h : S.Ahead item s' t) : S.Ahead item s t := by
  cases h with
  | here h => exact .here (hb.trans h)
  | later h₁ ha h₂ h => exact .later (hb.trans h₁) ha h₂ h

section Items

variable {α : Type} {item : Reader α} {rule : List Char → α → List Char → Prop} {stop : List Char → Prop}
  {c : Json.Container} {close : Char}

theorem readItems_error {s : List Char} {e : Failure} (h : item s = .error e) :
    readItems item close s = .error e := by
  rw [readItems, h]

theorem readItems_more_error {s left tail : List Char} {a : α} {e : Failure} (ha : item.Gives s a left)
    (hskip : skipSpace left = ',' :: tail) (hcomma : ',' ≠ close)
    (has : readItems item close (skipSpace tail) = .error e) : readItems item close s = .error e := by
  obtain ⟨hlen, ha⟩ := ha
  rw [readItems, ha]
  dsimp only
  split
  · rename_i hnil; rw [hskip] at hnil; cases hnil
  · rename_i htail
    rw [hskip] at htail
    obtain ⟨rfl, rfl⟩ := List.cons.inj htail
    rw [if_neg hcomma, if_pos rfl, has]

/-- Items stop only where one of them does. -/
theorem ahead_of_readItems (hitem : item.Obeys rule) {s : List Char}
    (h : readItems item close s = .error (.nested c)) :
    ∃ t, plain.Ahead rule s t ∧ item t = .error (.nested c) := by
  -- as in `readItems_sound`, the induction is on the length
  induction hn : s.length using Nat.strong_induction_on generalizing s with
  | h n ih =>
    rw [readItems] at h
    split at h
    · rename_i e he
      obtain rfl := Except.error.inj h
      exact ⟨s, .here .none, he⟩
    · rename_i a left hleft ha
      have hrule := hitem ⟨hleft, ha⟩
      have hblanks := blanks_skipSpace left
      split at h
      · cases h
      · rename_i d tail htail
        rw [htail] at hblanks
        have hlen := skipSpace_length left
        rw [htail, List.length_cons] at hlen
        split at h
        · cases h
        · split at h
          · rename_i hd
            subst hd
            dsimp only at h
            split at h
            · rename_i e he
              obtain rfl := Except.error.inj h
              have hskip := skipSpace_length tail
              obtain ⟨t, ht, hstop⟩ := ih _ (by omega) he rfl
              exact ⟨t, .later .none hrule hblanks (ht.blanks (blanks_skipSpace tail)), hstop⟩
            · cases h
          · cases h

theorem readItems_of_ahead (hitem : item.Reads rule) (hover : item.Overflows c stop)
    (hclose : close = ']' ∨ close = '\x7d') {s t : List Char} (h : plain.Ahead rule s t) (ht : stop t) :
    readItems item close (skipSpace s) = .error (.nested c) := by
  have hcomma : ',' ≠ close := by rcases hclose with rfl | rfl <;> decide
  induction h with
  | here h =>
    obtain ⟨d, t', rfl, hd⟩ := hover.start ht
    rw [skipSpace_of_blanks h, skipSpace_cons hd.1]
    exact readItems_error (hover.iff.2 ht)
  | later h₁ ha h₂ _ ih =>
    obtain ⟨d, s', rfl, hd⟩ := hitem.start ha
    rw [skipSpace_of_blanks h₁, skipSpace_cons hd.1]
    exact readItems_more_error (hitem.complete ha (follows_of_blanks h₂ (follows_cons (Or.inl rfl) _)))
      ((skipSpace_of_blanks h₂).trans (skipSpace_cons (by decide))) hcomma (ih ht)

/-- What comes first in a container starts neither with white space nor with a closing bracket. -/
theorem Style.Ahead.start (hitem : item.Reads rule) (hover : item.Overflows c stop) {s t : List Char}
    (h : plain.Ahead rule s t) (ht : stop t) : ∃ d s', skipSpace s = d :: s' ∧ IsStart d := by
  cases h with
  | here h =>
    obtain ⟨d, t', rfl, hd⟩ := hover.start ht
    exact ⟨d, t', (skipSpace_of_blanks h).trans (skipSpace_cons hd.1), hd⟩
  | later h₁ ha _ _ =>
    obtain ⟨d, s', rfl, hd⟩ := hitem.start ha
    exact ⟨d, s', (skipSpace_of_blanks h₁).trans (skipSpace_cons hd.1), hd⟩

/-- **A container stops at one that stands too deep** exactly if one of its items does. -/
theorem readContainer_nested (hitem : item.Reads rule) (hover : item.Overflows c stop)
    (hclose : close = ']' ∨ close = '\x7d') {s : List Char} :
    readContainer item close s = .error (.nested c) ↔ ∃ t, plain.Ahead rule s t ∧ stop t := by
  constructor
  · intro h
    have hitems : readItems item close (skipSpace s) = .error (.nested c) := by
      unfold readContainer at h
      split at h
      · rename_i hs
        split at h
        · rename_i e he
          obtain rfl := Except.error.inj h
          rw [hs]
          exact he
        · cases h
      · rename_i d tail hs
        split at h
        · cases h
        · split at h
          · rename_i e he
            obtain rfl := Except.error.inj h
            rw [hs]
            exact he
          · cases h
    obtain ⟨t, ht, hstop⟩ := ahead_of_readItems hitem.sound hitems
    exact ⟨t, ht.blanks (blanks_skipSpace s), hover.iff.1 hstop⟩
  · rintro ⟨t, hahead, ht⟩
    have hitems := readItems_of_ahead hitem hover hclose hahead ht
    obtain ⟨d, s', hs, hd⟩ := hahead.start hitem hover ht
    have hne : d ≠ close := by
      rcases hclose with rfl | rfl
      · exact hd.2.1
      · exact hd.2.2
    rw [hs] at hitems
    unfold readContainer
    split
    · rename_i hnil; rw [hs] at hnil; cases hnil
    · rename_i hcons
      rw [hs] at hcons
      obtain ⟨rfl, rfl⟩ := List.cons.inj hcons
      rw [if_neg hne, hitems]

/-- A member stops where its value does. -/
theorem readMember_overflows {value : Reader Json} (hover : value.Overflows c stop) :
    (readMember value).Overflows c (plain.MemberWith stop) where
  iff := by
    intro s
    constructor
    · intro h
      unfold readMember at h
      split at h
      · rename_i t
        split at h
        · rename_i e he
          obtain rfl := Except.error.inj h
          exact absurd he readString_ne_nested
        · rename_i name left hleft hname
          have hliteral := readString_gives.1 ⟨hleft, hname⟩
          have hcolon := blanks_skipSpace left
          split at h
          · rename_i tail htail
            rw [htail] at hcolon
            split at h
            · rename_i e he
              obtain rfl := Except.error.inj h
              exact .mk hliteral hcolon (blanks_skipSpace tail) (hover.iff.1 he)
            · cases h
          · cases h
      · cases h
    · rintro ⟨hn, hc, hb, hv⟩
      rename_i t s₁ s₂ s₃ name
      obtain ⟨d, t', rfl, hd⟩ := hover.start hv
      obtain ⟨hlen, hname⟩ := readString_gives.2 hn
      have hcolon := (skipSpace_of_blanks hc).trans (skipSpace_cons (by decide))
      have hskip := (skipSpace_of_blanks hb).trans (skipSpace_cons hd.1)
      have hstop := hover.iff.2 hv
      rw [← hskip] at hstop
      unfold readMember
      simp only [hname]
      split
      · rename_i tail htail
        rw [hcolon] at htail
        obtain ⟨-, rfl⟩ := List.cons.inj htail
        rw [hstop]
      · rename_i hne
        exact absurd hcolon (hne s₂)
  start := by
    rintro s ⟨-, -, -, -⟩
    exact ⟨_, _, rfl, by decide, by decide, by decide⟩

end Items

/-! ## Values -/

section Values

variable {limit : Option Nat} {depth : Nat} {s : List Char} {e : Failure} {c : Json.Container}

theorem readValue_array_error :
    readValue limit (depth + 1) ('[' :: s) = .error e ↔
      readContainer (readValue limit depth) ']' s = .error e := by
  rw [readValue]
  split
  · rename_i e' he
    rw [he]
    simp
  · rename_i items left hleft hitems
    rw [hitems]
    simp

theorem readValue_object_error :
    readValue limit (depth + 1) ('\x7b' :: s) = .error e ↔
      readContainer (readMember (readValue limit depth)) '\x7d' s = .error e := by
  rw [readValue]
  split
  · rename_i e' he
    rw [he]
    simp
  · rename_i members left hleft hmembers
    rw [hmembers]
    simp

theorem Style.Overfull.start {S : Style} (h : S.Overfull c depth s) :
    ∃ d t, s = d :: t ∧ (d = '[' ∨ d = '\x7b') := by
  cases depth with
  | zero =>
    obtain ⟨t, rfl⟩ := List.head?_eq_some_iff.1 h
    cases c with
    | array => exact ⟨_, t, rfl, Or.inl rfl⟩
    | object => exact ⟨_, t, rfl, Or.inr rfl⟩
  | succ depth =>
    cases h with
    | array _ _ => exact ⟨_, _, rfl, Or.inl rfl⟩
    | object _ _ => exact ⟨_, _, rfl, Or.inr rfl⟩

end Values

/-- **A value stops at a container that stands too deep** exactly if it has one, by induction on the depth. -/
theorem readValue_overflows (c : Container) (depth : Nat) :
    (readValue none depth).Overflows c (plain.Overfull c depth) := by
  have hstart : ∀ {depth : Nat} {s : List Char}, plain.Overfull c depth s → ∃ d t, s = d :: t ∧ IsStart d := by
    intro depth s h
    obtain ⟨d, t, rfl, hd⟩ := h.start
    refine ⟨d, t, rfl, ?_⟩
    rcases hd with rfl | rfl <;> exact ⟨by decide, by decide, by decide⟩
  -- nothing else starts with a bracket
  have hother : ∀ {depth : Nat} {s : List Char}, s.head? ≠ some '[' → s.head? ≠ some '\x7b' →
      (readValue none depth s = .error (.nested c) ↔ plain.Overfull c depth s) := by
    intro depth s hb hc
    refine ⟨fun h => absurd h (readValue_ne_nested hb hc), fun h => ?_⟩
    obtain ⟨d, t, rfl, rfl | rfl⟩ := h.start
    · exact absurd rfl hb
    · exact absurd rfl hc
  induction depth with
  | zero =>
    refine ⟨?_, hstart⟩
    intro s
    by_cases hb : s.head? = some '['
    · obtain ⟨t, rfl⟩ := List.head?_eq_some_iff.1 hb
      cases c <;> simp [readValue, Style.Overfull, Container.bracket]
    by_cases hc : s.head? = some '\x7b'
    · obtain ⟨t, rfl⟩ := List.head?_eq_some_iff.1 hc
      cases c <;> simp [readValue, Style.Overfull, Container.bracket]
    exact hother hb hc
  | succ depth ih =>
    refine ⟨?_, hstart⟩
    intro s
    by_cases hb : s.head? = some '['
    · obtain ⟨t, rfl⟩ := List.head?_eq_some_iff.1 hb
      rw [readValue_array_error, readContainer_nested (readValue_reads depth) ih (Or.inl rfl)]
      constructor
      · rintro ⟨u, hu, hover⟩
        exact .array hu hover
      · rintro (⟨hu, hover⟩ | _)
        exact ⟨_, hu, hover⟩
    by_cases hc : s.head? = some '\x7b'
    · obtain ⟨t, rfl⟩ := List.head?_eq_some_iff.1 hc
      rw [readValue_object_error, readContainer_nested (readMember_reads (readValue_reads depth))
        (readMember_overflows ih) (Or.inr rfl)]
      constructor
      · rintro ⟨u, hu, hover⟩
        exact .object hu hover
      · rintro (_ | ⟨hu, hover⟩)
        exact ⟨_, hu, hover⟩
    exact hother hb hc

/-! ## Texts -/

/-- **The reader stops at a container that stands too deep** exactly if the text has one. -/
theorem readText_nested_iff {depth : Nat} {s : List Char} {c : Container} :
    readText depth none s = .error (.nested c) ↔ plain.TooDeep depth c s := by
  constructor
  · intro h
    unfold readText at h
    split at h
    · cases h
    · split at h
      · rename_i e he
        obtain rfl := Except.error.inj h
        exact ⟨_, blanks_skipSpace s, (readValue_overflows c depth).iff.1 he⟩
      · split at h <;> cases h
  · rintro ⟨t, hb, hover⟩
    obtain ⟨d, t', rfl, hd⟩ := (readValue_overflows c depth).start hover
    have hskip := (skipSpace_of_blanks hb).trans (skipSpace_cons hd.1)
    have hstop := (readValue_overflows c depth).iff.2 hover
    rw [← hskip] at hstop
    -- a byte order mark is neither white space nor a bracket
    have hmark : ∀ {depth : Nat} {u : List Char}, plain.Overfull c depth u → u.head? ≠ some '\uFEFF' := by
      intro depth u hu h
      obtain ⟨d, v, rfl, hd⟩ := hu.start
      obtain rfl := Option.some.inj h
      exact absurd hd (by decide)
    have hhead : s.head? ≠ some '\uFEFF' := by
      cases hb with
      | none => exact hmark hover
      | more hspace _ =>
        intro h
        obtain rfl := Option.some.inj h
        exact absurd hspace (by decide)
    unfold readText
    rw [if_neg hhead, hstop]

end Demotion.Json
