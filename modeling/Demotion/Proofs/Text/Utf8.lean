import Mathlib.Tactic
import Demotion.Text.Utf8

/-!
# Decoding and encoding UTF-8

Bytes are decoded as a text exactly if they are the bytes of the text, so that nothing else is well formed:
no overlong form, no surrogate, no number beyond the last character.

* `head_append`: the bytes of a character are read as that character, whatever follows.
* `eq_append_of_head`: what is read as a character are the bytes of that character.
* `decode_iff`: **bytes are decoded as a text exactly if they encode it.**
-/

namespace Demotion.Text.Utf8

open String (utf8EncodeChar)

/-! ## Bytes and characters as numbers -/

/-- The numbers of characters. -/
theorem toNat_valid (c : Char) : c.toNat < 0xD800 ∨ 0xDFFF < c.toNat ∧ c.toNat < 0x110000 := c.valid

theorem toNat_ofNat {n : Nat} (h : n < 0xD800 ∨ 0xDFFF < n ∧ n < 0x110000) : (Char.ofNat n).toNat = n := by
  unfold Char.ofNat
  rw [dif_pos (show n.isValidChar from h)]
  rfl

theorem toNat_byte {n : Nat} (h : n < 0x100) : (UInt8.ofNat n).toNat = n := by
  rw [UInt8.toNat_ofNat', Nat.mod_eq_of_lt h]

theorem byte_eq {b : UInt8} {n : Nat} (h : b.toNat = n) : UInt8.ofNat n = b := by
  rw [← h, UInt8.ofNat_toNat]

theorem isContinuation_iff {b : UInt8} : isContinuation b = true ↔ 0x80 ≤ b.toNat ∧ b.toNat ≤ 0xBF := by
  unfold isContinuation
  rw [Bool.and_eq_true, decide_eq_true_eq, decide_eq_true_eq]

/-- The second byte continues a character, and after four first bytes it has a bound of its own. -/
theorem isSecond_iff {lead b : UInt8} :
    isSecond lead b = true ↔ (0x80 ≤ b.toNat ∧ b.toNat ≤ 0xBF) ∧ (lead.toNat = 0xE0 → 0xA0 ≤ b.toNat) ∧
      (lead.toNat = 0xED → b.toNat ≤ 0x9F) ∧ (lead.toNat = 0xF0 → 0x90 ≤ b.toNat) ∧
      (lead.toNat = 0xF4 → b.toNat ≤ 0x8F) := by
  unfold isSecond
  split
  · rename_i h; rw [Bool.and_eq_true, decide_eq_true_eq, decide_eq_true_eq]; omega
  · rename_i h; rw [Bool.and_eq_true, decide_eq_true_eq, decide_eq_true_eq]; omega
  · rename_i h; rw [Bool.and_eq_true, decide_eq_true_eq, decide_eq_true_eq]; omega
  · rename_i h; rw [Bool.and_eq_true, decide_eq_true_eq, decide_eq_true_eq]; omega
  · rename_i h₁ h₂ h₃ h₄
    rw [isContinuation_iff]
    exact ⟨fun h => ⟨h, fun e => absurd e h₁, fun e => absurd e h₂, fun e => absurd e h₃, fun e => absurd e h₄⟩,
      And.left⟩

/-! ## The first character -/

section Head

variable {b b₂ b₃ b₄ : UInt8} (rest : List UInt8)

theorem head_one (hb : b.toNat < 0x80) : head b rest = .char (Char.ofNat b.toNat) 1 := by
  have hwidth : width? b = some 1 := by unfold width?; rw [if_pos hb]
  unfold head
  simp [hwidth]

theorem head_two (hb : 0xC2 ≤ b.toNat ∧ b.toNat < 0xE0) (h₂ : isSecond b b₂ = true) :
    head b (b₂ :: rest) = .char (Char.ofNat (b.toNat % 0x20 * 0x40 + payload b₂)) 2 := by
  have hwidth : width? b = some 2 := by
    unfold width?
    rw [if_neg (by omega), if_neg (by omega), if_pos hb.2]
  unfold head
  simp [hwidth, h₂]

theorem head_three (hb : 0xE0 ≤ b.toNat ∧ b.toNat < 0xF0) (h₂ : isSecond b b₂ = true)
    (h₃ : isContinuation b₃ = true) :
    head b (b₂ :: b₃ :: rest) =
      .char (Char.ofNat ((b.toNat % 0x10 * 0x40 + payload b₂) * 0x40 + payload b₃)) 3 := by
  have hwidth : width? b = some 3 := by
    unfold width?
    rw [if_neg (by omega), if_neg (by omega), if_neg (by omega), if_pos hb.2]
  unfold head
  simp [hwidth, h₂, h₃]

theorem head_four (hb : 0xF0 ≤ b.toNat ∧ b.toNat < 0xF5) (h₂ : isSecond b b₂ = true)
    (h₃ : isContinuation b₃ = true) (h₄ : isContinuation b₄ = true) :
    head b (b₂ :: b₃ :: b₄ :: rest) =
      .char (Char.ofNat (((b.toNat % 0x08 * 0x40 + payload b₂) * 0x40 + payload b₃) * 0x40 + payload b₄)) 4 := by
  have hwidth : width? b = some 4 := by
    unfold width?
    rw [if_neg (by omega), if_neg (by omega), if_neg (by omega), if_neg (by omega), if_pos hb.2]
  unfold head
  simp [hwidth, h₂, h₃, h₄]

/-- **What can be read as a character**: one to four bytes of the forms above. -/
theorem head_cases {rest : List UInt8} {c : Char} {size : Nat} (h : head b rest = .char c size) :
    (b.toNat < 0x80 ∧ c = Char.ofNat b.toNat ∧ size = 1) ∨
      (∃ b₂ left, rest = b₂ :: left ∧ (0xC2 ≤ b.toNat ∧ b.toNat < 0xE0) ∧ isSecond b b₂ = true ∧
        c = Char.ofNat (b.toNat % 0x20 * 0x40 + payload b₂) ∧ size = 2) ∨
      (∃ b₂ b₃ left, rest = b₂ :: b₃ :: left ∧ (0xE0 ≤ b.toNat ∧ b.toNat < 0xF0) ∧ isSecond b b₂ = true ∧
        isContinuation b₃ = true ∧
        c = Char.ofNat ((b.toNat % 0x10 * 0x40 + payload b₂) * 0x40 + payload b₃) ∧ size = 3) ∨
      ∃ b₂ b₃ b₄ left, rest = b₂ :: b₃ :: b₄ :: left ∧ (0xF0 ≤ b.toNat ∧ b.toNat < 0xF5) ∧
        isSecond b b₂ = true ∧ isContinuation b₃ = true ∧ isContinuation b₄ = true ∧
        c = Char.ofNat (((b.toNat % 0x08 * 0x40 + payload b₂) * 0x40 + payload b₃) * 0x40 + payload b₄) ∧
        size = 4 := by
  have hwidth : ∀ n, width? b = some n → (n = 1 ∧ b.toNat < 0x80) ∨ (n = 2 ∧ 0xC2 ≤ b.toNat ∧ b.toNat < 0xE0) ∨
      (n = 3 ∧ 0xE0 ≤ b.toNat ∧ b.toNat < 0xF0) ∨ n = 4 ∧ 0xF0 ≤ b.toNat ∧ b.toNat < 0xF5 := by
    intro n hn
    unfold width? at hn
    split_ifs at hn <;> cases hn <;> omega
  unfold head at h
  split at h
  · cases h
  · rename_i hone
    cases h
    exact Or.inl ⟨by have := hwidth 1 hone; omega, rfl, rfl⟩
  · rename_i n hne hn
    have hn' := hwidth n hn
    split at h
    · cases h
    · rename_i b₂ left
      split at h
      · cases h
      · rename_i h₂
        have h₂ : isSecond b b₂ = true := by simpa using h₂
        split at h
        · cases h
          exact Or.inr (Or.inl ⟨b₂, left, rfl, by omega, h₂, rfl, rfl⟩)
        · split at h
          · cases h
          · rename_i b₃ left
            split at h
            · cases h
            · rename_i h₃
              have h₃ : isContinuation b₃ = true := by simpa using h₃
              split at h
              · cases h
                exact Or.inr (Or.inr (Or.inl ⟨b₂, b₃, left, rfl, by omega, h₂, h₃, rfl, rfl⟩))
              · split at h
                · cases h
                · rename_i b₄ left
                  split at h
                  · cases h
                  · rename_i h₄
                    have h₄ : isContinuation b₄ = true := by simpa using h₄
                    have hfour : n ≠ 1 := hne
                    cases h
                    exact Or.inr (Or.inr (Or.inr ⟨b₂, b₃, b₄, left, rfl, by omega, h₂, h₃, h₄, rfl, rfl⟩))

end Head

/-! ## The bytes of a character -/

/-- The bytes of the character with a number. -/
theorem encodeChar_eq {c : Char} {n : Nat} (h : c.toNat = n) :
    utf8EncodeChar c =
      if n ≤ 127 then [UInt8.ofNat n]
      else if n ≤ 2047 then [UInt8.ofNat (n / 64 % 32 + 192), UInt8.ofNat (n % 64 + 128)]
      else if n ≤ 65535 then
        [UInt8.ofNat (n / 4096 % 16 + 224), UInt8.ofNat (n / 64 % 64 + 128), UInt8.ofNat (n % 64 + 128)]
      else [UInt8.ofNat (n / 262144 % 8 + 240), UInt8.ofNat (n / 4096 % 64 + 128),
        UInt8.ofNat (n / 64 % 64 + 128), UInt8.ofNat (n % 64 + 128)] := by
  subst h
  rfl

/-- **The bytes of a character are read as that character**, whatever follows. -/
theorem head_append {c : Char} {b : UInt8} {tail : List UInt8} (h : utf8EncodeChar c = b :: tail)
    (left : List UInt8) : head b (tail ++ left) = .char c (tail.length + 1) := by
  have hvalid := toNat_valid c
  have hchar : ∀ n, n = c.toNat → Char.ofNat n = c := fun n hn => by rw [hn, Char.ofNat_toNat]
  rw [encodeChar_eq rfl] at h
  split_ifs at h with h₁ h₂ h₃
  · obtain ⟨rfl, rfl⟩ := List.cons.inj h
    have hb := toNat_byte (n := c.toNat) (by omega)
    rw [List.nil_append, head_one _ (by omega), hchar _ hb]
    rfl
  · obtain ⟨rfl, rfl⟩ := List.cons.inj h
    have hb := toNat_byte (n := c.toNat / 64 % 32 + 192) (by omega)
    have hb₂ := toNat_byte (n := c.toNat % 64 + 128) (by omega)
    rw [List.cons_append, List.nil_append, head_two _ (by omega) (isSecond_iff.2 (by omega)),
      hchar _ (by unfold payload; omega)]
    rfl
  · obtain ⟨rfl, rfl⟩ := List.cons.inj h
    have hb := toNat_byte (n := c.toNat / 4096 % 16 + 224) (by omega)
    have hb₂ := toNat_byte (n := c.toNat / 64 % 64 + 128) (by omega)
    have hb₃ := toNat_byte (n := c.toNat % 64 + 128) (by omega)
    rw [List.cons_append, List.cons_append, List.nil_append,
      head_three _ (by omega) (isSecond_iff.2 (by omega)) (isContinuation_iff.2 (by omega)),
      hchar _ (by unfold payload; omega)]
    rfl
  · obtain ⟨rfl, rfl⟩ := List.cons.inj h
    have hb := toNat_byte (n := c.toNat / 262144 % 8 + 240) (by omega)
    have hb₂ := toNat_byte (n := c.toNat / 4096 % 64 + 128) (by omega)
    have hb₃ := toNat_byte (n := c.toNat / 64 % 64 + 128) (by omega)
    have hb₄ := toNat_byte (n := c.toNat % 64 + 128) (by omega)
    rw [List.cons_append, List.cons_append, List.cons_append, List.nil_append,
      head_four _ (by omega) (isSecond_iff.2 (by omega)) (isContinuation_iff.2 (by omega))
        (isContinuation_iff.2 (by omega)),
      hchar _ (by unfold payload; omega)]
    rfl

/-- **What is read as a character are the bytes of that character.** -/
theorem eq_append_of_head {b : UInt8} {rest : List UInt8} {c : Char} {size : Nat}
    (h : head b rest = .char c size) :
    ∃ tail left, utf8EncodeChar c = b :: tail ∧ rest = tail ++ left ∧ size = tail.length + 1 := by
  rcases head_cases h with ⟨hb, rfl, rfl⟩ | ⟨b₂, left, rfl, hb, h₂, rfl, rfl⟩ |
    ⟨b₂, b₃, left, rfl, hb, h₂, h₃, rfl, rfl⟩ | ⟨b₂, b₃, b₄, left, rfl, hb, h₂, h₃, h₄, rfl, rfl⟩
  · refine ⟨[], rest, ?_, rfl, rfl⟩
    rw [encodeChar_eq (toNat_ofNat (by omega)), if_pos (by omega), byte_eq rfl]
  · refine ⟨[b₂], left, ?_, rfl, rfl⟩
    have h₂ := isSecond_iff.1 h₂
    unfold payload
    rw [encodeChar_eq (toNat_ofNat (by omega)), if_neg (by omega), if_pos (by omega), byte_eq (b := b) (by omega),
      byte_eq (b := b₂) (by omega)]
  · refine ⟨[b₂, b₃], left, ?_, rfl, rfl⟩
    have h₂ := isSecond_iff.1 h₂
    have h₃ := isContinuation_iff.1 h₃
    unfold payload
    rw [encodeChar_eq (toNat_ofNat (by omega)), if_neg (by omega), if_neg (by omega), if_pos (by omega),
      byte_eq (b := b) (by omega), byte_eq (b := b₂) (by omega), byte_eq (b := b₃) (by omega)]
  · refine ⟨[b₂, b₃, b₄], left, ?_, rfl, rfl⟩
    have h₂ := isSecond_iff.1 h₂
    have h₃ := isContinuation_iff.1 h₃
    have h₄ := isContinuation_iff.1 h₄
    unfold payload
    rw [encodeChar_eq (toNat_ofNat (by omega)), if_neg (by omega), if_neg (by omega), if_neg (by omega),
      byte_eq (b := b) (by omega), byte_eq (b := b₂) (by omega), byte_eq (b := b₃) (by omega),
      byte_eq (b := b₄) (by omega)]

theorem exists_encodeChar (c : Char) : ∃ b tail, utf8EncodeChar c = b :: tail := by
  have hlength := String.length_utf8EncodeChar c
  have hpos := c.utf8Size_pos
  cases hbytes : utf8EncodeChar c with
  | nil => rw [hbytes, List.length_nil] at hlength; omega
  | cons b tail => exact ⟨b, tail, rfl⟩

/-! ## Whole texts -/

theorem encode_cons (c : Char) (s : List Char) : encode (c :: s) = utf8EncodeChar c ++ encode s := rfl

theorem decodeFrom_encode (offset : Nat) (s : List Char) : decodeFrom offset (encode s) = .ok s := by
  induction s generalizing offset with
  | nil => rw [encode, List.flatMap_nil, decodeFrom]
  | cons c s ih =>
    obtain ⟨b, tail, hbytes⟩ := exists_encodeChar c
    rw [encode_cons, hbytes, List.cons_append, decodeFrom, head_append hbytes]
    simp only [Nat.add_sub_cancel, List.drop_left, ih]

theorem encode_of_decodeFrom {offset : Nat} {bytes : List UInt8} {s : List Char}
    (h : decodeFrom offset bytes = .ok s) : bytes = encode s := by
  fun_induction decodeFrom offset bytes generalizing s with
  | case1 => cases h; rfl
  | case2 => cases h
  | case3 => cases h
  | case4 offset b rest c size hhead cs hrest ih =>
    cases h
    obtain ⟨tail, left, hbytes, rfl, rfl⟩ := eq_append_of_head hhead
    rw [Nat.add_sub_cancel, List.drop_left] at hrest ih
    rw [encode_cons, hbytes, ← ih hrest, List.cons_append]

/-- **Bytes are decoded as a text exactly if they encode it.** -/
theorem decode_iff {bytes : List UInt8} {s : List Char} : decode bytes = .ok s ↔ bytes = encode s := by
  constructor
  · exact encode_of_decodeFrom
  · rintro rfl
    exact decodeFrom_encode 0 s

end Demotion.Text.Utf8
