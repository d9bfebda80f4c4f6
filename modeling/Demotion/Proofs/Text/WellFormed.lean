import Demotion.Proofs.Text.Utf8

/-!
# Well-formed UTF-8

Bytes are well formed if they are characters one after the other. What the bytes of a character are is told by
their bits: the first byte says how many there are and each of the others starts with the bits `10`, the number
that the bits left over write is that of a character, and no fewer bytes write the same number.

* `Writes.bounds`, `Writes.unique`: which numbers so many bytes can write, and that they do so in one way.
* `isCharacter_iff`: the bytes of a character are those that it is encoded as.
* `wellFormed_iff`: **bytes are well formed exactly if they encode a text.**
-/

namespace Demotion.Text.Utf8

open String (utf8EncodeChar)

/-! ## Bits of a character -/

/-- One to four bytes, and the number that their bits write. -/
inductive Writes : List UInt8 → Nat → Prop where
  | one {b : UInt8} (h : b.toNat / 128 = 0) : Writes [b] b.toNat
  | two {b b₂ : UInt8} (h : b.toNat / 32 = 0b110) (h₂ : b₂.toNat / 64 = 0b10) :
      Writes [b, b₂] (b.toNat % 32 * 64 + b₂.toNat % 64)
  | three {b b₂ b₃ : UInt8} (h : b.toNat / 16 = 0b1110) (h₂ : b₂.toNat / 64 = 0b10) (h₃ : b₃.toNat / 64 = 0b10) :
      Writes [b, b₂, b₃] ((b.toNat % 16 * 64 + b₂.toNat % 64) * 64 + b₃.toNat % 64)
  | four {b b₂ b₃ b₄ : UInt8} (h : b.toNat / 8 = 0b11110) (h₂ : b₂.toNat / 64 = 0b10) (h₃ : b₃.toNat / 64 = 0b10)
      (h₄ : b₄.toNat / 64 = 0b10) :
      Writes [b, b₂, b₃, b₄] (((b.toNat % 8 * 64 + b₂.toNat % 64) * 64 + b₃.toNat % 64) * 64 + b₄.toNat % 64)

/-- The bytes of the character with number `n`. -/
structure IsCharacter (bytes : List UInt8) (n : Nat) : Prop where
  writes : Writes bytes n
  /-- The form is not overlong. -/
  shortest : ∀ other, Writes other n → bytes.length ≤ other.length
  not_surrogate : ¬(0xD800 ≤ n ∧ n ≤ 0xDFFF)
  le_last : n ≤ 0x10FFFF

/-- Well-formed bytes: characters one after the other. -/
inductive WellFormed : List UInt8 → Prop where
  | nil : WellFormed []
  | append {bytes rest : List UInt8} {n : Nat} (h : IsCharacter bytes n) (hrest : WellFormed rest) :
      WellFormed (bytes ++ rest)

section Writes

variable {bytes other : List UInt8} {n : Nat}

/-- The numbers that so many bytes can write. -/
theorem Writes.bounds (h : Writes bytes n) :
    (bytes.length = 1 ∧ n < 0x80) ∨ (bytes.length = 2 ∧ n < 0x800) ∨ (bytes.length = 3 ∧ n < 0x10000) ∨
      bytes.length = 4 := by
  cases h with
  | one h => exact Or.inl ⟨rfl, by omega⟩
  | two h h₂ => exact Or.inr (Or.inl ⟨rfl, by omega⟩)
  | three h h₂ h₃ => exact Or.inr (Or.inr (Or.inl ⟨rfl, by omega⟩))
  | four h h₂ h₃ h₄ => exact Or.inr (Or.inr (Or.inr rfl))

/-- So many bytes write a number in one way. -/
theorem Writes.unique (h : Writes bytes n) (h' : Writes other n) (hlen : bytes.length = other.length) :
    bytes = other := by
  have hbyte : ∀ {b c : UInt8}, b.toNat = c.toNat → b = c := UInt8.toNat_inj.1
  generalize hm : n = m at h'
  cases h with
  | @one b h =>
    cases h' with
    | @one c h' =>
      have hb : b = c := hbyte hm
      rw [hb]
    | _ => cases hlen
  | @two b b₂ h h₂ =>
    cases h' with
    | @two c c₂ h' h₂' =>
      have hb : b = c := hbyte (by omega)
      have hb₂ : b₂ = c₂ := hbyte (by omega)
      rw [hb, hb₂]
    | _ => cases hlen
  | @three b b₂ b₃ h h₂ h₃ =>
    cases h' with
    | @three c c₂ c₃ h' h₂' h₃' =>
      have hb : b = c := hbyte (by omega)
      have hb₂ : b₂ = c₂ := hbyte (by omega)
      have hb₃ : b₃ = c₃ := hbyte (by omega)
      rw [hb, hb₂, hb₃]
    | _ => cases hlen
  | @four b b₂ b₃ b₄ h h₂ h₃ h₄ =>
    cases h' with
    | @four c c₂ c₃ c₄ h' h₂' h₃' h₄' =>
      have hb : b = c := hbyte (by omega)
      have hb₂ : b₂ = c₂ := hbyte (by omega)
      have hb₃ : b₃ = c₃ := hbyte (by omega)
      have hb₄ : b₄ = c₄ := hbyte (by omega)
      rw [hb, hb₂, hb₃, hb₄]
    | _ => cases hlen

end Writes

/-! ## Characters -/

/-- A character is encoded by bytes that write its number. -/
theorem writes_encodeChar (c : Char) : Writes (utf8EncodeChar c) c.toNat := by
  have hvalid := toNat_valid c
  rw [encodeChar_eq rfl]
  generalize c.toNat = n at hvalid
  split_ifs with h₁ h₂ h₃
  · have hb := toNat_byte (n := n) (by omega)
    have hwrites := @Writes.one (UInt8.ofNat n) (by omega)
    rwa [hb] at hwrites
  · have hb := toNat_byte (n := n / 64 % 32 + 192) (by omega)
    have hb₂ := toNat_byte (n := n % 64 + 128) (by omega)
    have hnumber : (n / 64 % 32 + 192) % 32 * 64 + (n % 64 + 128) % 64 = n := by omega
    have hwrites := @Writes.two (UInt8.ofNat (n / 64 % 32 + 192)) (UInt8.ofNat (n % 64 + 128)) (by omega)
      (by omega)
    rwa [hb, hb₂, hnumber] at hwrites
  · have hb := toNat_byte (n := n / 4096 % 16 + 224) (by omega)
    have hb₂ := toNat_byte (n := n / 64 % 64 + 128) (by omega)
    have hb₃ := toNat_byte (n := n % 64 + 128) (by omega)
    have hnumber :
        ((n / 4096 % 16 + 224) % 16 * 64 + (n / 64 % 64 + 128) % 64) * 64 + (n % 64 + 128) % 64 = n := by
      omega
    have hwrites := @Writes.three (UInt8.ofNat (n / 4096 % 16 + 224)) (UInt8.ofNat (n / 64 % 64 + 128))
      (UInt8.ofNat (n % 64 + 128)) (by omega) (by omega) (by omega)
    rwa [hb, hb₂, hb₃, hnumber] at hwrites
  · have hb := toNat_byte (n := n / 262144 % 8 + 240) (by omega)
    have hb₂ := toNat_byte (n := n / 4096 % 64 + 128) (by omega)
    have hb₃ := toNat_byte (n := n / 64 % 64 + 128) (by omega)
    have hb₄ := toNat_byte (n := n % 64 + 128) (by omega)
    have hnumber : (((n / 262144 % 8 + 240) % 8 * 64 + (n / 4096 % 64 + 128) % 64) * 64 +
        (n / 64 % 64 + 128) % 64) * 64 + (n % 64 + 128) % 64 = n := by omega
    have hwrites := @Writes.four (UInt8.ofNat (n / 262144 % 8 + 240)) (UInt8.ofNat (n / 4096 % 64 + 128))
      (UInt8.ofNat (n / 64 % 64 + 128)) (UInt8.ofNat (n % 64 + 128)) (by omega) (by omega) (by omega) (by omega)
    rwa [hb, hb₂, hb₃, hb₄, hnumber] at hwrites

/-- No byte of a character could be spared. -/
theorem length_encodeChar (c : Char) :
    (utf8EncodeChar c).length = 1 ∨ ((utf8EncodeChar c).length = 2 ∧ 0x80 ≤ c.toNat) ∨
      ((utf8EncodeChar c).length = 3 ∧ 0x800 ≤ c.toNat) ∨ (utf8EncodeChar c).length = 4 ∧ 0x10000 ≤ c.toNat := by
  rw [encodeChar_eq rfl]
  split_ifs with h₁ h₂ h₃
  · exact Or.inl rfl
  · exact Or.inr (Or.inl ⟨rfl, by omega⟩)
  · exact Or.inr (Or.inr (Or.inl ⟨rfl, by omega⟩))
  · exact Or.inr (Or.inr (Or.inr ⟨rfl, by omega⟩))

theorem isCharacter_encodeChar (c : Char) : IsCharacter (utf8EncodeChar c) c.toNat := by
  have hvalid := toNat_valid c
  refine ⟨writes_encodeChar c, ?_, by omega, by omega⟩
  intro other hother
  have hlength := length_encodeChar c
  have hbounds := hother.bounds
  omega

theorem isCharacter_iff {bytes : List UInt8} {n : Nat} :
    IsCharacter bytes n ↔ ∃ c : Char, c.toNat = n ∧ utf8EncodeChar c = bytes := by
  constructor
  · intro h
    have hn : (Char.ofNat n).toNat = n := by
      apply toNat_ofNat
      have hsurrogate := h.not_surrogate
      have hlast := h.le_last
      omega
    have hchar := isCharacter_encodeChar (Char.ofNat n)
    rw [hn] at hchar
    -- both forms are the shortest, and of one length there is one
    have hlen : (utf8EncodeChar (Char.ofNat n)).length = bytes.length :=
      Nat.le_antisymm (hchar.shortest bytes h.writes) (h.shortest _ hchar.writes)
    exact ⟨Char.ofNat n, hn, hchar.writes.unique h.writes hlen⟩
  · rintro ⟨c, rfl, rfl⟩
    exact isCharacter_encodeChar c

/-! ## Texts -/

/-- **Bytes are well formed exactly if they encode a text.** -/
theorem wellFormed_iff {bytes : List UInt8} : WellFormed bytes ↔ ∃ s, bytes = encode s := by
  constructor
  · intro h
    induction h with
    | nil => exact ⟨[], rfl⟩
    | append hchar _ ih =>
      obtain ⟨c, -, rfl⟩ := isCharacter_iff.1 hchar
      obtain ⟨s, rfl⟩ := ih
      exact ⟨c :: s, (encode_cons c s).symm⟩
  · rintro ⟨s, rfl⟩
    induction s with
    | nil => exact .nil
    | cons c s ih =>
      rw [encode_cons]
      exact .append (isCharacter_encodeChar c) ih

end Demotion.Text.Utf8
