import Mathlib.Data.List.TakeWhile
import Mathlib.Tactic
import Demotion.Proofs.Json.Grammar

/-!
# Reading strings, numbers and words

What the reader takes for a string, a number or a word is what the grammar takes for one.

* `readUnits_sound`, `readUnits_complete`, `literal_sound`, `literal_complete`: strings. The reader first
  takes the escapes one by one and then joins the halves of surrogate pairs; the grammar has both in one rule.
* `splitNumber?_append`, `splitNumber?_eq_some`: numbers. The reader takes as much as it can, so it
  finds a number only where no digit, point or exponent follows it (`Follows`).
* `readPlain_sound`, `readPlain_complete`: values that are neither strings nor containers.
-/

namespace Demotion.Json

/-! ## Escapes -/

theorem hexValue?_iff {c : Char} {n : Nat} : hexValue? c = some n ↔ IsHexDigit c n := by
  constructor
  · intro h
    obtain ⟨k, hk⟩ : ∃ k, k = c.toNat := ⟨_, rfl⟩
    have hc : c = Char.ofNat k := by rw [hk, Char.ofNat_toNat]
    unfold hexValue? at h
    simp only [Bool.and_eq_true, decide_eq_true_eq] at h
    split at h
    · rename_i hr
      have h₁ : 48 ≤ k := hk ▸ hr.1
      have h₂ : k ≤ 57 := hk ▸ hr.2
      obtain rfl := Option.some.inj h
      rw [← hk, hc]
      interval_cases k <;> exact Or.inl rfl
    · split at h
      · rename_i hr
        have h₁ : 97 ≤ k := hk ▸ hr.1
        have h₂ : k ≤ 102 := hk ▸ hr.2
        obtain rfl := Option.some.inj h
        rw [← hk, hc]
        interval_cases k <;> exact Or.inl rfl
      · split at h
        · rename_i hr
          have h₁ : 65 ≤ k := hk ▸ hr.1
          have h₂ : k ≤ 70 := hk ▸ hr.2
          obtain rfl := Option.some.inj h
          rw [← hk, hc]
          interval_cases k <;> exact Or.inr rfl
        · cases h
  · intro h
    have hn : n < 16 := by
      rcases h with h | h
      · simpa using (List.getElem?_eq_some_iff.1 h).1
      · simpa using (List.getElem?_eq_some_iff.1 h).1
    interval_cases n <;> rcases h with h | h <;> obtain rfl := Option.some.inj h <;> decide

/-- A hexadecimal digit is none of the other characters. -/
theorem IsHexDigit.ne {c d : Char} {n : Nat} (h : IsHexDigit c n)
    (hd : d ∉ "0123456789abcdef".toList ++ "0123456789ABCDEF".toList) : c ≠ d := by
  rintro rfl
  exact hd (List.mem_append.2 (h.imp List.mem_of_getElem? List.mem_of_getElem?))

theorem escaped?_iff {e c : Char} : escaped? e = some c ↔ (e, c) ∈ escapes := by
  constructor
  · intro h
    unfold escaped? at h
    split at h
    all_goals first
      | (obtain rfl := Option.some.inj h; decide)
      | cases h
  · intro h
    simp only [escapes, List.mem_cons, List.not_mem_nil, or_false, Prod.mk.injEq] at h
    rcases h with ⟨rfl, rfl⟩ | ⟨rfl, rfl⟩ | ⟨rfl, rfl⟩ | ⟨rfl, rfl⟩ | ⟨rfl, rfl⟩ | ⟨rfl, rfl⟩ | ⟨rfl, rfl⟩ |
      ⟨rfl, rfl⟩ <;> rfl

/-- The code point that a number stands for. -/
def pointOf (n : Nat) : CodePoint :=
  if 0xD800 ≤ n && n < 0xE000 then .half n else .char (Char.ofNat n)

theorem codePoint?_iff {a b c d : Char} {p : CodePoint} :
    codePoint? a b c d = some p ↔ ∃ n, IsHex a b c d n ∧ p = pointOf n := by
  constructor
  · intro h
    unfold codePoint? at h
    split at h
    · rename_i i j k l hi hj hk hl
      refine ⟨_, ⟨hexValue?_iff.1 hi, hexValue?_iff.1 hj, hexValue?_iff.1 hk, hexValue?_iff.1 hl⟩, ?_⟩
      rw [← Option.some.inj h, show i * 0x1000 + j * 0x100 + k * 0x10 + l = ((i * 16 + j) * 16 + k) * 16 + l
        by ring]
      rfl
    · cases h
  · rintro ⟨n, ⟨ha, hb, hc, hd⟩, rfl⟩
    rename_i i j k l
    unfold codePoint?
    rw [hexValue?_iff.2 ha, hexValue?_iff.2 hb, hexValue?_iff.2 hc, hexValue?_iff.2 hd,
      show i * 0x1000 + j * 0x100 + k * 0x10 + l = ((i * 16 + j) * 16 + k) * 16 + l by ring]
    rfl

/-- What the reader takes for an escape after its backslash. -/
theorem readEscape_eq_ok {string s rest : List Char} {p : CodePoint}
    (h : readEscape string s = .ok (p, rest)) :
    (∃ e c, (e, c) ∈ escapes ∧ s = e :: rest ∧ p = .char c) ∨
      ∃ a b c d, codePoint? a b c d = some p ∧ s = 'u' :: a :: b :: c :: d :: rest := by
  unfold readEscape at h
  split at h
  · cases h
  · rename_i a b c d e rest'
    split at h
    · rename_i p' hp
      obtain ⟨rfl, rfl⟩ := Prod.mk.inj (Except.ok.inj h)
      exact Or.inr ⟨a, b, c, d, hp, rfl⟩
    · cases h
  · cases h
  · rename_i e rest' _ _
    split at h
    · rename_i c hc
      obtain ⟨rfl, rfl⟩ := Prod.mk.inj (Except.ok.inj h)
      exact Or.inl ⟨e, c, escaped?_iff.1 hc, rfl, rfl⟩
    · cases h

theorem readEscape_escape {e c : Char} (he : (e, c) ∈ escapes) (string rest : List Char) :
    readEscape string (e :: rest) = .ok (.char c, rest) := by
  simp only [escapes, List.mem_cons, List.not_mem_nil, or_false, Prod.mk.injEq] at he
  rcases he with ⟨rfl, rfl⟩ | ⟨rfl, rfl⟩ | ⟨rfl, rfl⟩ | ⟨rfl, rfl⟩ | ⟨rfl, rfl⟩ | ⟨rfl, rfl⟩ | ⟨rfl, rfl⟩ |
    ⟨rfl, rfl⟩ <;> rfl

theorem readEscape_code {a b c d : Char} {p : CodePoint} (hp : codePoint? a b c d = some p)
    (string : List Char) {rest : List Char} (hr : rest ≠ []) :
    readEscape string ('u' :: a :: b :: c :: d :: rest) = .ok (p, rest) := by
  cases rest with
  | nil => exact absurd rfl hr
  | cons e rest => simp only [readEscape, hp]

/-! ## Strings -/

/-- The code points of a string, with the halves of surrogate pairs still apart. -/
inductive Units : List Char → List CodePoint → List Char → Prop where
  | close {rest : List Char} : Units ('"' :: rest) [] rest
  | char {c : Char} {s rest : List Char} {ps : List CodePoint} (hq : c ≠ '"') (hb : c ≠ '\\')
      (hc : ' ' ≤ c) (h : Units s ps rest) : Units (c :: s) (.char c :: ps) rest
  | escape {e c : Char} {s rest : List Char} {ps : List CodePoint} (he : (e, c) ∈ escapes)
      (h : Units s ps rest) : Units ('\\' :: e :: s) (.char c :: ps) rest
  | code {a b c d : Char} {p : CodePoint} {s rest : List Char} {ps : List CodePoint}
      (hp : codePoint? a b c d = some p) (h : Units s ps rest) :
      Units ('\\' :: 'u' :: a :: b :: c :: d :: s) (p :: ps) rest

theorem Units.ne_nil {s rest : List Char} {ps : List CodePoint} (h : Units s ps rest) : s ≠ [] := by
  cases h <;> exact List.cons_ne_nil _ _

theorem space_le_iff {c : Char} : ' ' ≤ c ↔ ¬c.toNat < 0x20 :=
  Nat.not_lt.symm

theorem readUnits_sound {string s rest : List Char} {ps : List CodePoint}
    (h : readUnits string s = .ok (ps, rest)) : Units s ps rest := by
  fun_induction readUnits string s generalizing ps rest with
  | case1 => cases h
  | case2 s =>
    obtain ⟨rfl, rfl⟩ := Prod.mk.inj (Except.ok.inj h)
    exact .close
  | case3 => cases h
  | case4 => cases h
  | case5 s p left he _ ps' left' hr ih =>
    obtain ⟨rfl, rfl⟩ := Prod.mk.inj (Except.ok.inj h)
    rcases readEscape_eq_ok he with ⟨e, c, hec, rfl, rfl⟩ | ⟨a, b, c, d, hp, rfl⟩
    · exact .escape hec (ih hr)
    · exact .code hp (ih hr)
  | case6 => cases h
  | case7 => cases h
  | case8 c s hq hb hc ps' left' hr ih =>
    obtain ⟨rfl, rfl⟩ := Prod.mk.inj (Except.ok.inj h)
    exact .char (fun h => hq h) (fun h => hb h) (space_le_iff.2 hc) (ih hr)

theorem readUnits_complete {s rest : List Char} {ps : List CodePoint} (h : Units s ps rest)
    (string : List Char) : readUnits string s = .ok (ps, rest) := by
  induction h with
  | close => rw [readUnits]
  | char hq hb hc _ ih =>
    rw [readUnits]
    · rw [if_neg (space_le_iff.1 hc), ih]
    · exact fun h => hq h
    · exact fun h => hb h
  | escape he _ ih =>
    rw [readUnits]
    split
    · rename_i hr
      rw [readEscape_escape he] at hr
      cases hr
    · rename_i hr
      rw [readEscape_escape he] at hr
      obtain ⟨rfl, rfl⟩ := Prod.mk.inj (Except.ok.inj hr)
      rw [ih]
  | code hp h ih =>
    rw [readUnits]
    split
    · rename_i hr
      rw [readEscape_code hp _ h.ne_nil] at hr
      cases hr
    · rename_i hr
      rw [readEscape_code hp _ h.ne_nil] at hr
      obtain ⟨rfl, rfl⟩ := Prod.mk.inj (Except.ok.inj hr)
      rw [ih]

theorem pointOf_char {n : Nat} (hh : ¬IsHighHalf n) (hl : ¬IsLowHalf n) :
    pointOf n = .char (Char.ofNat n) := by
  unfold IsHighHalf at hh
  unfold IsLowHalf at hl
  unfold pointOf
  rw [if_neg]
  simp only [Bool.and_eq_true, decide_eq_true_eq]
  omega

theorem pointOf_half {n : Nat} (h : IsHighHalf n ∨ IsLowHalf n) : pointOf n = .half n := by
  unfold IsHighHalf IsLowHalf at h
  unfold pointOf
  rw [if_pos]
  simp only [Bool.and_eq_true, decide_eq_true_eq]
  omega

theorem pointOf_eq_half {n m : Nat} (h : CodePoint.half m = pointOf n) :
    m = n ∧ (IsHighHalf n ∨ IsLowHalf n) := by
  by_cases hn : IsHighHalf n ∨ IsLowHalf n
  · rw [pointOf_half hn] at h
    exact ⟨CodePoint.half.inj h, hn⟩
  · rw [pointOf_char (fun hh => hn (Or.inl hh)) fun hl => hn (Or.inr hl)] at h
    cases h

theorem joinHalves_char (c : Char) (ps : List CodePoint) :
    joinHalves (.char c :: ps) = .char c :: joinHalves ps := by
  rw [joinHalves]
  exact fun _ _ _ h => by cases h

/-- A first half is left alone only if no second half comes after it. -/
theorem joinHalves_half {n : Nat} {ps : List CodePoint}
    (h : IsHighHalf n → ∀ m, (joinHalves ps).head? = some (.half m) → ¬IsLowHalf m)
    (hn : IsHighHalf n ∨ IsLowHalf n) (hps : ∀ m, ps.head? = some (.half m) → IsHighHalf m ∨ IsLowHalf m) :
    joinHalves (.half n :: ps) = .half n :: joinHalves ps := by
  cases ps with
  | nil => rfl
  | cons p ps =>
    cases p with
    | char c => rfl
    | half m =>
      rw [joinHalves, if_neg]
      intro hjoin
      simp only [Bool.and_eq_true, decide_eq_true_eq] at hjoin
      have hm := hps m rfl
      unfold IsHighHalf IsLowHalf at hm hn
      -- `m` is a second half, so it is joined with nothing after it and heads the joined list
      have hhead : (joinHalves (.half m :: ps)).head? = some (.half m) := by
        cases ps with
        | nil => rfl
        | cons q ps =>
          cases q with
          | char c => rfl
          | half k =>
            rw [joinHalves, if_neg]
            · rfl
            · simp only [Bool.and_eq_true, decide_eq_true_eq]
              omega
      refine h ⟨by omega, by omega⟩ m hhead ⟨hjoin.2, by omega⟩

/-- The halves that a reader finds are halves of surrogate pairs. -/
theorem Units.isHalf {s rest : List Char} {ps : List CodePoint} (h : Units s ps rest) {m : Nat}
    (hm : ps.head? = some (.half m)) : IsHighHalf m ∨ IsLowHalf m := by
  cases h with
  | close => cases hm
  | char _ _ _ _ => cases hm
  | escape _ _ => cases hm
  | code hp _ =>
    obtain ⟨n, -, rfl⟩ := codePoint?_iff.1 hp
    obtain ⟨rfl, hn⟩ := pointOf_eq_half (Option.some.inj hm).symm
    exact hn

theorem literal_complete {s rest : List Char} {p : Content} (h : Style.plain.Literal s p rest) :
    ∃ ps, Units s ps rest ∧ joinHalves ps = p := by
  induction h with
  | close => exact ⟨[], .close, rfl⟩
  | char hq hb hc _ ih =>
    obtain ⟨ps, hps, rfl⟩ := ih
    exact ⟨_, .char hq hb hc hps, joinHalves_char _ _⟩
  | escape he _ ih =>
    obtain ⟨ps, hps, rfl⟩ := ih
    exact ⟨_, .escape he hps, joinHalves_char _ _⟩
  | code hn hh hl _ ih =>
    obtain ⟨ps, hps, rfl⟩ := ih
    exact ⟨_, .code (codePoint?_iff.2 ⟨_, hn, (pointOf_char hh hl).symm⟩) hps, joinHalves_char _ _⟩
  | pair hm hh hn hl _ ih =>
    obtain ⟨ps, hps, rfl⟩ := ih
    refine ⟨_, .code (codePoint?_iff.2 ⟨_, hm, (pointOf_half (Or.inl hh)).symm⟩)
      (.code (codePoint?_iff.2 ⟨_, hn, (pointOf_half (Or.inr hl)).symm⟩) hps), ?_⟩
    rw [joinHalves, if_pos]
    simp only [Bool.and_eq_true, decide_eq_true_eq]
    exact ⟨hh.2, hl.1⟩
  | half hn hs halone _ ih =>
    obtain ⟨ps, hps, rfl⟩ := ih
    exact ⟨_, .code (codePoint?_iff.2 ⟨_, hn, (pointOf_half hs).symm⟩) hps,
      joinHalves_half halone hs fun m hm => hps.isHalf hm⟩

theorem literal_sound {s rest : List Char} {ps : List CodePoint} (h : Units s ps rest) :
    Style.plain.Literal s (joinHalves ps) rest := by
  fun_induction joinHalves ps generalizing s with
  | case1 m n ps hjoin ih =>
    simp only [Bool.and_eq_true, decide_eq_true_eq] at hjoin
    cases h with
    | code hp h =>
      cases h with
      | code hp' h =>
        obtain ⟨m', hm, hpm⟩ := codePoint?_iff.1 hp
        obtain ⟨n', hn, hpn⟩ := codePoint?_iff.1 hp'
        obtain ⟨rfl, hmh⟩ := pointOf_eq_half hpm
        obtain ⟨rfl, hnh⟩ := pointOf_eq_half hpn
        have hhigh : IsHighHalf m := hmh.resolve_right fun hl => by unfold IsLowHalf at hl; omega
        have hlow : IsLowHalf n := hnh.resolve_left fun hh => by unfold IsHighHalf at hh; omega
        exact .pair hm hhigh hn hlow (ih h)
  | case2 m n ps hjoin ih =>
    simp only [Bool.and_eq_true, decide_eq_true_eq, not_and] at hjoin
    cases h with
    | code hp h =>
      obtain ⟨m', hm, hpm⟩ := codePoint?_iff.1 hp
      obtain ⟨rfl, hmh⟩ := pointOf_eq_half hpm
      refine .half hm hmh ?_ (ih h)
      intro hhigh k hk hlow
      -- the joined list starts with `n` or with a character, and `n` is no second half
      have hnk : n = k := by
        cases ps with
        | nil => exact CodePoint.half.inj (Option.some.inj hk)
        | cons q ps =>
          cases q with
          | char c => exact CodePoint.half.inj (Option.some.inj hk)
          | half l =>
            rw [joinHalves] at hk
            split at hk
            · cases hk
            · exact CodePoint.half.inj (Option.some.inj hk)
      subst hnk
      exact hjoin hhigh.2 hlow.1
  | case3 p ps hne ih =>
    cases h with
    | char hq hb hc h => exact .char hq hb hc (ih h)
    | escape he h => exact .escape he (ih h)
    | code hp h =>
      obtain ⟨n, hn, rfl⟩ := codePoint?_iff.1 hp
      by_cases hs : IsHighHalf n ∨ IsLowHalf n
      · rw [pointOf_half hs] at hne ⊢
        refine .half hn hs ?_ (ih h)
        intro _ k hk
        cases ps with
        | nil => cases hk
        | cons q ps =>
          cases q with
          | char c => rw [joinHalves_char] at hk; cases hk
          | half l => exact absurd rfl (hne n l ps rfl)
      · have hh : ¬IsHighHalf n := fun hh => hs (Or.inl hh)
        have hl : ¬IsLowHalf n := fun hl => hs (Or.inr hl)
        rw [pointOf_char hh hl]
        exact .code hn hh hl (ih h)
  | case4 =>
    cases h with
    | close => exact .close

/-- **The reader reads exactly the strings of the grammar.** -/
theorem readString_iff {s rest : List Char} {p : Content} (hlen : rest.length < s.length) :
    readString s = .ok (p, ⟨rest, hlen⟩) ↔ Style.plain.Literal s p rest := by
  constructor
  · intro h
    unfold readString at h
    split at h
    · cases h
    · rename_i ps r hr
      simp only [Except.ok.injEq, Prod.mk.injEq, Subtype.mk.injEq] at h
      obtain ⟨rfl, rfl⟩ := h
      exact literal_sound (readUnits_sound hr)
  · intro h
    obtain ⟨ps, hps, rfl⟩ := literal_complete h
    unfold readString
    split
    · rename_i hr
      rw [readUnits_complete hps] at hr
      cases hr
    · rename_i ps' r hr
      rw [readUnits_complete hps] at hr
      obtain ⟨rfl, rfl⟩ := Prod.mk.inj (Except.ok.inj hr)
      rfl

/-! ## Numbers -/

/-- What may follow a value: white space, a comma, a closing bracket, or the end of the text. -/
def Follows (rest : List Char) : Prop :=
  ∀ c, rest.head? = some c → isSpace c = true ∨ c = ',' ∨ c = ']' ∨ c = '\x7d'

/-- A text that does not start with a digit. -/
def NoDigit (s : List Char) : Prop := ∀ c, s.head? = some c → c.isDigit = false

theorem Follows.head_ne {rest : List Char} (h : Follows rest) {c : Char} (hc : rest.head? = some c) :
    c.isDigit = false ∧ c ≠ '.' ∧ c ≠ 'e' ∧ c ≠ 'E' := by
  have hcases := h c hc
  unfold isSpace at hcases
  simp only [Bool.or_eq_true, decide_eq_true_eq] at hcases
  rcases hcases with (((rfl | rfl) | rfl) | rfl) | rfl | rfl | rfl <;> decide

theorem splitDigits_append {w rest : List Char} (hw : ∀ c ∈ w, c.isDigit = true) (hr : NoDigit rest) :
    splitDigits (w ++ rest) = (w, rest) := by
  unfold splitDigits
  rw [List.takeWhile_append_of_pos hw, List.dropWhile_append_of_pos hw]
  cases rest with
  | nil => simp
  | cons c rest =>
    have hc : ¬c.isDigit = true := by rw [hr c rfl]; exact Bool.false_ne_true
    rw [List.takeWhile_cons_of_neg hc, List.dropWhile_cons_of_neg hc, List.append_nil]

theorem splitDigits_eq {s w rest : List Char} (h : splitDigits s = (w, rest)) :
    s = w ++ rest ∧ ∀ c ∈ w, c.isDigit = true := by
  obtain ⟨rfl, rfl⟩ := Prod.mk.inj h
  exact ⟨(List.takeWhile_append_dropWhile).symm, fun c hc => List.mem_takeWhile_imp hc⟩

theorem splitWhole_append {w rest : List Char} (hw : IsWhole w) (hr : NoDigit rest) :
    splitWhole (w ++ rest) = (w, rest) := by
  rcases hw with rfl | ⟨⟨hne, hdigits⟩, hzero⟩
  · rfl
  · cases w with
    | nil => exact absurd rfl hne
    | cons c w =>
      have hc : c ≠ '0' := fun h => hzero (by rw [h]; rfl)
      rw [← splitDigits_append hdigits hr, List.cons_append, splitWhole]
      exact fun _ h => hc (List.cons.inj h).1

theorem splitWhole_eq {s w rest : List Char} (h : splitWhole s = (w, rest)) (hw : w ≠ []) :
    s = w ++ rest ∧ IsWhole w := by
  unfold splitWhole at h
  split at h
  · obtain ⟨rfl, rfl⟩ := Prod.mk.inj h
    exact ⟨rfl, Or.inl rfl⟩
  · rename_i hzero
    obtain ⟨rfl, hdigits⟩ := splitDigits_eq h
    refine ⟨rfl, Or.inr ⟨⟨hw, hdigits⟩, fun hhead => ?_⟩⟩
    obtain ⟨w', rfl⟩ := List.head?_eq_some_iff.1 hhead
    exact hzero _ rfl

theorem splitFraction_append {w rest : List Char} (hw : IsFraction w) (hr : NoDigit rest)
    (hdot : rest.head? ≠ some '.') : splitFraction (w ++ rest) = (w, rest) := by
  rcases hw with rfl | ⟨digits, rfl, hne, hdigits⟩
  · rw [List.nil_append, splitFraction]
    exact fun _ h => hdot (by rw [h]; rfl)
  · rw [List.cons_append, splitFraction, splitDigits_append hdigits hr]
    cases digits with
    | nil => exact absurd rfl hne
    | cons c digits => rfl

theorem splitFraction_eq {s w rest : List Char} (h : splitFraction s = (w, rest)) :
    s = w ++ rest ∧ IsFraction w := by
  unfold splitFraction at h
  split at h
  · split at h
    · obtain ⟨rfl, rfl⟩ := Prod.mk.inj h
      exact ⟨rfl, Or.inl rfl⟩
    · rename_i digits left hne hd
      obtain ⟨rfl, rfl⟩ := Prod.mk.inj h
      obtain ⟨rfl, hdigits⟩ := splitDigits_eq hd
      exact ⟨rfl, Or.inr ⟨digits, rfl, fun h => hne h, hdigits⟩⟩
  · obtain ⟨rfl, rfl⟩ := Prod.mk.inj h
    exact ⟨rfl, Or.inl rfl⟩

theorem splitPlusMinus_append {sign digits rest : List Char}
    (hs : sign = [] ∨ sign = ['+'] ∨ sign = ['-']) (hd : IsDigits digits) :
    splitPlusMinus (sign ++ (digits ++ rest)) = (sign, digits ++ rest) := by
  rcases hs with rfl | rfl | rfl
  · cases digits with
    | nil => exact absurd rfl hd.1
    | cons c digits =>
      have hc := hd.2 c List.mem_cons_self
      rw [List.nil_append, List.cons_append, splitPlusMinus]
      · intro _ h; rw [(List.cons.inj h).1] at hc; exact absurd hc (by decide)
      · intro _ h; rw [(List.cons.inj h).1] at hc; exact absurd hc (by decide)
  · rfl
  · rfl

theorem splitPlusMinus_eq {s sign rest : List Char} (h : splitPlusMinus s = (sign, rest)) :
    s = sign ++ rest ∧ (sign = [] ∨ sign = ['+'] ∨ sign = ['-']) := by
  unfold splitPlusMinus at h
  split at h <;> obtain ⟨rfl, rfl⟩ := Prod.mk.inj h <;> simp

theorem splitExponent_append {w rest : List Char} (hw : IsExponent w) (hr : NoDigit rest)
    (he : ∀ c, rest.head? = some c → c ≠ 'e' ∧ c ≠ 'E') : splitExponent (w ++ rest) = (w, rest) := by
  rcases hw with rfl | ⟨e, sign, digits, rfl, hE, hsign, hd⟩
  · cases rest with
    | nil => rfl
    | cons c rest =>
      rw [List.nil_append, splitExponent, if_neg]
      simpa using he c rfl
  · rw [List.cons_append, List.cons_append, List.append_assoc, splitExponent, if_pos (by simpa using hE),
      splitPlusMinus_append hsign hd]
    dsimp only
    rw [splitDigits_append hd.2 hr]
    cases digits with
    | nil => exact absurd rfl hd.1
    | cons c digits => rfl

theorem splitExponent_eq {s w rest : List Char} (h : splitExponent s = (w, rest)) :
    s = w ++ rest ∧ IsExponent w := by
  unfold splitExponent at h
  split at h
  · obtain ⟨rfl, rfl⟩ := Prod.mk.inj h
    exact ⟨rfl, Or.inl rfl⟩
  · rename_i c s'
    split at h
    · rename_i hE
      simp only [Bool.or_eq_true, decide_eq_true_eq] at hE
      obtain ⟨⟨sign, afterSign⟩, hp⟩ : ∃ r, splitPlusMinus s' = r := ⟨_, rfl⟩
      rw [hp] at h
      dsimp only at h
      obtain ⟨rfl, hsign⟩ := splitPlusMinus_eq hp
      split at h
      · obtain ⟨rfl, rfl⟩ := Prod.mk.inj h
        exact ⟨rfl, Or.inl rfl⟩
      · rename_i digits left hne hd
        obtain ⟨rfl, rfl⟩ := Prod.mk.inj h
        obtain ⟨rfl, hdigits⟩ := splitDigits_eq hd
        exact ⟨by simp, Or.inr ⟨c, sign, digits, rfl, hE, hsign, fun h => hne h, hdigits⟩⟩
    · obtain ⟨rfl, rfl⟩ := Prod.mk.inj h
      exact ⟨rfl, Or.inl rfl⟩

theorem IsFraction.head {w : List Char} (h : IsFraction w) {c : Char} (hc : w.head? = some c) : c = '.' := by
  rcases h with rfl | ⟨digits, rfl, -⟩
  · cases hc
  · exact (Option.some.inj hc).symm

theorem IsExponent.head {w : List Char} (h : IsExponent w) {c : Char} (hc : w.head? = some c) :
    c = 'e' ∨ c = 'E' := by
  rcases h with rfl | ⟨e, sign, digits, rfl, he, -⟩
  · cases hc
  · obtain rfl := Option.some.inj hc
    exact he

theorem IsWhole.head {w : List Char} (h : IsWhole w) : ∃ c w', w = c :: w' ∧ c.isDigit = true := by
  rcases h with rfl | ⟨⟨hne, hdigits⟩, -⟩
  · exact ⟨'0', [], rfl, by decide⟩
  · cases w with
    | nil => exact absurd rfl hne
    | cons c w => exact ⟨c, w, rfl, hdigits c List.mem_cons_self⟩

theorem IsNumber.ne_nil {w : List Char} (h : IsNumber w) : w ≠ [] := by
  cases h with
  | mk hs hw _ _ =>
    obtain ⟨c, whole, rfl, -⟩ := hw.head
    simp

/-- A number without a sign at the head of a text, and what follows. -/
def splitUnsigned? (s : List Char) : Option (List Char × List Char) :=
  match splitWhole s with
  | ([], _) => none
  | (whole, afterWhole) =>
    let (fraction, afterFraction) := splitFraction afterWhole
    let (exponent, left) := splitExponent afterFraction
    some (whole ++ fraction ++ exponent, left)

theorem splitNumber?_minus (s : List Char) :
    splitNumber? ('-' :: s) = (splitUnsigned? s).map fun r => ('-' :: r.1, r.2) := by
  obtain ⟨⟨whole, afterWhole⟩, hw⟩ : ∃ r, splitWhole s = r := ⟨_, rfl⟩
  simp only [splitNumber?, splitUnsigned?, hw]
  cases whole <;> simp

theorem splitNumber?_of_head_ne {s : List Char} (h : s.head? ≠ some '-') :
    splitNumber? s = splitUnsigned? s := by
  obtain ⟨⟨whole, afterWhole⟩, hw⟩ : ∃ r, splitWhole s = r := ⟨_, rfl⟩
  unfold splitNumber? splitUnsigned?
  split
  rename_i sign afterSign hs
  split at hs
  · exact absurd rfl h
  · obtain ⟨rfl, rfl⟩ := Prod.mk.inj hs
    simp only [hw]
    cases whole <;> simp

theorem splitUnsigned?_append {whole fraction exponent rest : List Char} (hw : IsWhole whole)
    (hf : IsFraction fraction) (he : IsExponent exponent) (hr : Follows rest) :
    splitUnsigned? (whole ++ (fraction ++ (exponent ++ rest))) =
      some (whole ++ fraction ++ exponent, rest) := by
  -- a part ends where the next one starts, because none of them starts with a digit
  have hrest : NoDigit rest := fun c hc => (hr.head_ne hc).1
  have hexp : NoDigit (exponent ++ rest) ∧ (exponent ++ rest).head? ≠ some '.' := by
    cases exponent with
    | nil => exact ⟨hrest, fun h => (hr.head_ne h).2.1 rfl⟩
    | cons c exponent =>
      refine ⟨fun d hd => ?_, fun h => ?_⟩
      · rcases he.head hd with rfl | rfl <;> decide
      · rcases he.head h with h | h <;> exact absurd h (by decide)
  have hfrac : NoDigit (fraction ++ (exponent ++ rest)) := by
    cases fraction with
    | nil => exact hexp.1
    | cons c fraction => intro d hd; obtain rfl := hf.head hd; decide
  obtain ⟨c, whole', rfl, -⟩ := hw.head
  simp only [splitUnsigned?, splitWhole_append hw hfrac, splitFraction_append hf hexp.1 hexp.2,
    splitExponent_append he hrest fun c hc => (hr.head_ne hc).2.2]

theorem splitUnsigned?_eq_some {s w rest : List Char} (h : splitUnsigned? s = some (w, rest)) :
    ∃ whole fraction exponent, w = whole ++ fraction ++ exponent ∧ s = w ++ rest ∧ IsWhole whole ∧
      IsFraction fraction ∧ IsExponent exponent := by
  unfold splitUnsigned? at h
  split at h
  · cases h
  · rename_i whole afterWhole hne hw
    obtain ⟨rfl, hwhole⟩ := splitWhole_eq hw fun h => hne h
    obtain ⟨⟨fraction, afterFraction⟩, hf⟩ : ∃ r, splitFraction afterWhole = r := ⟨_, rfl⟩
    obtain ⟨rfl, hfraction⟩ := splitFraction_eq hf
    obtain ⟨⟨exponent, left⟩, he⟩ : ∃ r, splitExponent afterFraction = r := ⟨_, rfl⟩
    obtain ⟨rfl, hexponent⟩ := splitExponent_eq he
    simp only [hf, he, Option.some.injEq, Prod.mk.injEq] at h
    obtain ⟨rfl, rfl⟩ := h
    exact ⟨whole, fraction, exponent, rfl, by simp, hwhole, hfraction, hexponent⟩

theorem splitNumber?_append {w rest : List Char} (hw : IsNumber w) (hr : Follows rest) :
    splitNumber? (w ++ rest) = some (w, rest) := by
  obtain ⟨hs, hwhole, hf, he⟩ := hw
  rcases hs with rfl | rfl
  · obtain ⟨c, whole, rfl, hc⟩ := hwhole.head
    rw [splitNumber?_of_head_ne, List.nil_append, List.append_assoc, List.append_assoc,
      splitUnsigned?_append hwhole hf he hr]
    intro h
    obtain rfl : c = '-' := Option.some.inj h
    exact absurd hc (by decide)
  · rw [List.append_assoc, List.append_assoc, List.append_assoc, List.singleton_append, splitNumber?_minus,
      splitUnsigned?_append hwhole hf he hr]
    simp

theorem splitNumber?_eq_some {s w rest : List Char} (h : splitNumber? s = some (w, rest)) :
    s = w ++ rest ∧ IsNumber w := by
  by_cases hs : s.head? = some '-'
  · obtain ⟨s', rfl⟩ := List.head?_eq_some_iff.1 hs
    rw [splitNumber?_minus] at h
    obtain ⟨⟨w', rest'⟩, h', hw⟩ := Option.map_eq_some_iff.1 h
    obtain ⟨rfl, rfl⟩ := Prod.mk.inj hw
    obtain ⟨whole, fraction, exponent, rfl, rfl, hwhole, hf, he⟩ := splitUnsigned?_eq_some h'
    exact ⟨rfl, by simpa using IsNumber.mk (Or.inr rfl) hwhole hf he⟩
  · rw [splitNumber?_of_head_ne hs] at h
    obtain ⟨whole, fraction, exponent, rfl, hsw, hwhole, hf, he⟩ := splitUnsigned?_eq_some h
    exact ⟨hsw, by simpa using IsNumber.mk (Or.inl rfl) hwhole hf he⟩

/-! ## Words -/

theorem splitWord?_eq_some {s : List Char} {v : Json} {size : Nat} (h : splitWord? s = some (v, size)) :
    ∃ w rest, (w, v) ∈ words ∧ s = w ++ rest ∧ size = w.length := by
  obtain ⟨⟨w, v'⟩, hw, hs⟩ := List.exists_of_findSome?_eq_some h
  obtain ⟨rest, hrest, hv⟩ := Option.map_eq_some_iff.1 hs
  obtain ⟨rfl, rfl⟩ := Prod.mk.inj hv
  exact ⟨w, rest, hw, Text.after?_append hrest, rfl⟩

/-- A number is no word. -/
theorem splitWord?_number {w : List Char} (hw : IsNumber w) (rest : List Char) :
    splitWord? (w ++ rest) = none := by
  obtain ⟨hs, hwhole, -, -⟩ := hw
  rename_i sign whole fraction exponent
  obtain ⟨c, whole', rfl, hc⟩ := hwhole.head
  have hne : ∀ d ∈ ['n', 't', 'f', 'N', 'I', '-'], d ≠ c := by
    intro d hd h
    subst h
    revert hc
    simp only [List.mem_cons, List.not_mem_nil, or_false] at hd
    rcases hd with rfl | rfl | rfl | rfl | rfl | rfl <;> decide
  simp only [List.mem_cons, List.not_mem_nil, or_false, forall_eq_or_imp, forall_eq] at hne
  obtain ⟨h₁, h₂, h₃, h₄, h₅, h₆⟩ := hne
  rcases hs with rfl | rfl
  · simp [splitWord?, words, Text.after?, h₁, h₂, h₃, h₄, h₅, h₆]
  · simp [splitWord?, words, Text.after?, h₅]

theorem splitWord?_append {w : List Char} {v : Json} (hw : (w, v) ∈ words) (rest : List Char) :
    splitWord? (w ++ rest) = some (v, w.length) := by
  simp only [words, List.mem_cons, List.not_mem_nil, or_false, Prod.mk.injEq] at hw
  rcases hw with ⟨rfl, rfl⟩ | ⟨rfl, rfl⟩ | ⟨rfl, rfl⟩ | ⟨rfl, rfl⟩ | ⟨rfl, rfl⟩ | ⟨rfl, rfl⟩ <;>
    simp [splitWord?, words, Text.after?]

theorem ne_nil_of_mem_words {w : List Char} {v : Json} (hw : (w, v) ∈ words) : w ≠ [] := by
  rintro rfl
  simp [words] at hw

theorem scalar_of_mem_words {w : List Char} {v : Json} (hw : (w, v) ∈ words) (rest : List Char) :
    Style.plain.Scalar (w ++ rest) v rest := by
  simp only [words, List.mem_cons, List.not_mem_nil, or_false, Prod.mk.injEq] at hw
  rcases hw with ⟨rfl, rfl⟩ | ⟨rfl, rfl⟩ | ⟨rfl, rfl⟩ | ⟨rfl, rfl⟩ | ⟨rfl, rfl⟩ | ⟨rfl, rfl⟩
  · exact .null
  · exact .true
  · exact .false
  · exact .constant (by decide)
  · exact .constant (by decide)
  · exact .constant (by decide)

/-! ## Numbers and words -/

/-- A part of the reader gives a value and leaves a rest. -/
def Reader.Gives {α : Type} (r : Reader α) (s : List Char) (a : α) (rest : List Char) : Prop :=
  ∃ hlen : rest.length < s.length, r s = .ok (a, ⟨rest, hlen⟩)

theorem readPlain_sound {limit : Option Nat} {s rest : List Char} {v : Json}
    (h : (readPlain limit).Gives s v rest) : Style.plain.Scalar s v rest := by
  obtain ⟨hlen, h⟩ := h
  cases s with
  | nil => cases h
  | cons c cs =>
    -- what is left is what follows the word or the number
    have hdrop : ∀ {w r : List Char}, c :: cs = w ++ r → w ≠ [] → cs.drop (w.length - 1) = r := by
      intro w r hs hw
      cases w with
      | nil => exact absurd rfl hw
      | cons d w =>
        rw [List.cons_append] at hs
        rw [(List.cons.inj hs).2, List.length_cons, Nat.add_sub_cancel, List.drop_left]
    rw [readPlain] at h
    split at h
    · rename_i v' size hword
      obtain ⟨w, r, hw, hs, rfl⟩ := splitWord?_eq_some hword
      simp only [Except.ok.injEq, Prod.mk.injEq, Subtype.mk.injEq, hdrop hs (ne_nil_of_mem_words hw)] at h
      obtain ⟨rfl, rfl⟩ := h
      rw [hs]
      exact scalar_of_mem_words hw _
    · rename_i w r _ hnumber
      obtain ⟨hs, hw⟩ := splitNumber?_eq_some hnumber
      split at h
      · cases h
      · simp only [Except.ok.injEq, Prod.mk.injEq, Subtype.mk.injEq, hdrop hs hw.ne_nil] at h
        obtain ⟨rfl, rfl⟩ := h
        rw [hs]
        exact .number hw
    · cases h

theorem readPlain_word {w : List Char} {v : Json} (hw : (w, v) ∈ words) (rest : List Char) :
    (readPlain none).Gives (w ++ rest) v rest := by
  have hword := splitWord?_append hw rest
  have hne := ne_nil_of_mem_words hw
  cases w with
  | nil => exact absurd rfl hne
  | cons c w =>
    rw [List.cons_append] at hword ⊢
    exact ⟨by simp, by simp [readPlain, hword]⟩

theorem readPlain_number {w rest : List Char} (hw : IsNumber w) (hr : Follows rest) :
    (readPlain none).Gives (w ++ rest) (.number (String.ofList w)) rest := by
  have hnumber := splitNumber?_append hw hr
  have hword := splitWord?_number hw rest
  have hne := hw.ne_nil
  cases w with
  | nil => exact absurd rfl hne
  | cons c w =>
    rw [List.cons_append] at hword hnumber ⊢
    exact ⟨by simp, by simp [readPlain, hword, hnumber, isTooLong]⟩

/-- **The reader reads every number and every word of the grammar** that something fit follows. -/
theorem readPlain_complete {s rest : List Char} {v : Json} (h : Style.plain.Scalar s v rest)
    (hq : s.head? ≠ some '"') (hr : Follows rest) : (readPlain none).Gives s v rest := by
  cases h with
  | null => exact readPlain_word (by simp [words]) _
  | true => exact readPlain_word (by simp [words]) _
  | false => exact readPlain_word (by simp [words]) _
  | constant hw =>
    simp only [List.mem_cons, List.not_mem_nil, or_false] at hw
    rcases hw with rfl | rfl | rfl <;> exact readPlain_word (by simp [words]) _
  | number hw => exact readPlain_number hw hr
  | string _ => exact absurd rfl hq

end Demotion.Json
