import Mathlib.Tactic
import Demotion.Number.Binary64

/-!
# Where a quotient leaves the range of double precision

The largest finite number is 2^1024 - 2^971, and the next number of this distance would be 2^1024. A quotient is
out of range if it is rounded to that number, hence from the middle between the two on: there the even
significand is the one above.

* `lt_roundDiv_iff`: when a quotient is rounded above an odd number.
* `ofRatio_eq_infinite_iff`: **a quotient is out of range exactly from 2^1024 - 2^970 on.**
* `divide?_eq_none_iff`: the same of the quotient of two integers.
-/

namespace Demotion

section Round

variable {num den n : Nat}

theorem roundDiv_cases (num den : Nat) :
    roundDiv num den = num / den ∧ 2 * (num % den) ≤ den ∨
      roundDiv num den = num / den + 1 ∧ den ≤ 2 * (num % den) := by
  unfold roundDiv
  simp only
  split_ifs <;> omega

/-- What is at most an integer is not rounded above it. -/
theorem roundDiv_le (hden : 0 < den) (h : num ≤ n * den) : roundDiv num den ≤ n := by
  have hdiv : num / den ≤ n := by
    rw [Nat.div_le_iff_le_mul hden]
    omega
  rcases Nat.lt_or_eq_of_le hdiv with hlt | heq
  · rcases roundDiv_cases num den with ⟨hround, -⟩ | ⟨hround, -⟩ <;> omega
  · -- the quotient is the integer itself, and nothing remains
    have hmod := Nat.div_add_mod num den
    rw [heq, Nat.mul_comm den n] at hmod
    rcases roundDiv_cases num den with ⟨hround, -⟩ | ⟨hround, hhalf⟩ <;> omega

/-- A quotient is rounded above an odd number exactly from the half behind it on. -/
theorem lt_roundDiv_iff (hden : 0 < den) (hodd : n % 2 = 1) :
    n < roundDiv num den ↔ (2 * n + 1) * den ≤ 2 * num := by
  have hnum := Nat.div_add_mod num den
  have hmod := Nat.mod_lt num hden
  have hright : (2 * n + 1) * den = 2 * (den * n) + den := by ring
  rw [hright]
  rcases Nat.lt_trichotomy (num / den) n with hlt | heq | hgt
  · have hbelow : den * (num / den + 1) ≤ den * n := Nat.mul_le_mul_left den hlt
    rw [Nat.mul_add, Nat.mul_one] at hbelow
    rcases roundDiv_cases num den with ⟨hround, -⟩ | ⟨hround, -⟩ <;> omega
  · -- a half goes to the even number, which is the one above
    have hround : n < roundDiv num den ↔ den ≤ 2 * (num % den) := by
      unfold roundDiv
      simp only [heq, hodd, one_ne_zero, if_false]
      split_ifs <;> omega
    rw [heq] at hnum
    rw [hround]
    omega
  · have habove : den * (n + 1) ≤ den * (num / den) := Nat.mul_le_mul_left den hgt
    rw [Nat.mul_add, Nat.mul_one] at habove
    rcases roundDiv_cases num den with ⟨hround, -⟩ | ⟨hround, -⟩ <;> omega

end Round

namespace Binary64

theorem ofParts_cases (negative : Bool) (m p : Nat) :
    ofParts negative m p = .infinite negative ∧ (maxExponent < p ∨ m = 2 ^ 53 ∧ p = maxExponent) ∨
      (∃ m' p', ofParts negative m p = .finite negative m' p') ∧ p ≤ maxExponent ∧
        (m = 2 ^ 53 → p < maxExponent) := by
  have htop : (2 : Nat) ^ 53 = 0x20000000000000 := by norm_num
  unfold ofParts
  rw [htop]
  by_cases hm : m = 0x20000000000000
  · simp only [if_pos hm]
    by_cases hp : maxExponent < p + 1
    · rw [if_pos hp]
      exact Or.inl ⟨rfl, by omega⟩
    · rw [if_neg hp]
      exact Or.inr ⟨⟨_, _, rfl⟩, by omega, fun _ => by omega⟩
  · simp only [if_neg hm]
    by_cases hp : maxExponent < p
    · rw [if_pos hp]
      exact Or.inl ⟨rfl, Or.inl hp⟩
    · rw [if_neg hp]
      exact Or.inr ⟨⟨_, _, rfl⟩, by omega, fun h => absurd h hm⟩

theorem ofParts_eq_infinite_iff (negative : Bool) (m p : Nat) :
    ofParts negative m p = .infinite negative ↔ maxExponent < p ∨ m = 2 ^ 53 ∧ p = maxExponent := by
  rcases ofParts_cases negative m p with ⟨heq, hp⟩ | ⟨⟨m', p', heq⟩, hp, hm⟩
  · exact ⟨fun _ => hp, fun _ => heq⟩
  · rw [heq]
    constructor
    · intro h
      cases h
    · rintro (h | ⟨h, h'⟩)
      · omega
      · have := hm h
        omega

section Ratio

variable {num den : Nat}

/-- Between powers of two, a quotient of units is told by its logarithm. -/
theorem units_bounds (hden : 0 < den) {units : Nat} (hq : units / den ≠ 0) :
    2 ^ (units / den).log2 * den ≤ units ∧ units < 2 ^ ((units / den).log2 + 1) * den := by
  have hlow := Nat.log2_self_le hq
  have hhigh : units / den < 2 ^ ((units / den).log2 + 1) := Nat.lt_log2_self
  exact ⟨(Nat.le_div_iff_mul_le hden).1 hlow, (Nat.div_lt_iff_lt_mul hden).1 hhigh⟩

/-- The significand that a quotient is rounded to. -/
theorem significand_le (hden : 0 < den) (units : Nat) :
    roundDiv units (den * Nat.pow 2 ((units / den).log2 - 52)) ≤ 2 ^ 53 := by
  have hpow : 0 < Nat.pow 2 ((units / den).log2 - 52) := Nat.two_pow_pos _
  apply roundDiv_le (Nat.mul_pos hden hpow)
  by_cases hq : units / den = 0
  · have hsmall : units < den := (Nat.div_eq_zero_iff_lt hden).1 hq
    have hle : den * 1 ≤ den * Nat.pow 2 ((units / den).log2 - 52) := Nat.mul_le_mul_left den hpow
    omega
  · obtain ⟨-, hhigh⟩ := units_bounds hden hq
    have hexp : 2 ^ ((units / den).log2 + 1) ≤ 2 ^ (53 + ((units / den).log2 - 52)) :=
      Nat.pow_le_pow_right (by norm_num) (by omega)
    calc units ≤ 2 ^ ((units / den).log2 + 1) * den := hhigh.le
      _ ≤ 2 ^ (53 + ((units / den).log2 - 52)) * den := Nat.mul_le_mul_right den hexp
      _ = 2 ^ 53 * (den * Nat.pow 2 ((units / den).log2 - 52)) := by
        rw [pow_add, Nat.pow_eq]
        ring

/-- The exponent of a quotient, told without dividing. -/
theorem le_log2_div_iff (hden : 0 < den) (units : Nat) {k : Nat} (hk : 0 < k) :
    k ≤ (units / den).log2 ↔ 2 ^ k * den ≤ units := by
  rw [← Nat.le_div_iff_mul_le hden]
  by_cases hq : units / den = 0
  · have hpow := Nat.two_pow_pos k
    have hzero : Nat.log2 0 = 0 := by decide
    rw [hq, hzero]
    omega
  · exact Nat.le_log2 hq

/-- At the largest exponent, the significand carries over from the half behind the largest one on. -/
theorem significand_eq_iff (hden : 0 < den) {units p : Nat} (hle : roundDiv units (den * 2 ^ p) ≤ 2 ^ 53) :
    roundDiv units (den * 2 ^ p) = 2 ^ 53 ↔ (2 ^ 54 - 1) * (den * 2 ^ p) ≤ 2 * units := by
  have hpos : 0 < den * 2 ^ p := Nat.mul_pos hden (Nat.two_pow_pos p)
  have hodd : (2 ^ 53 - 1) % 2 = 1 := by norm_num
  have hiff : 2 ^ 53 - 1 < roundDiv units (den * 2 ^ p) ↔ _ := lt_roundDiv_iff hpos hodd
  have hdouble : 2 * (2 ^ 53 - 1) + 1 = 2 ^ 54 - 1 := by norm_num
  rw [hdouble] at hiff
  rw [← hiff]
  omega

/-- The bound of a range in which 1 has 2^one units and the largest exponent is that of 2^(half + 1): there
2^half is one half of the last place. -/
theorem out_of_range_iff (hden : 0 < den) {unit one : Nat} (hunit : unit = Nat.pow 2 one) (half : Nat) {p : Nat}
    (hp : p = (num * unit / den).log2 - 52) (hle : roundDiv (num * unit) (den * Nat.pow 2 p) ≤ 2 ^ 53) :
    one + half + 1 < p ∨ roundDiv (num * unit) (den * Nat.pow 2 p) = 2 ^ 53 ∧ p = one + half + 1 ↔
      (2 ^ (half + 54) - 2 ^ half) * den ≤ num := by
  rw [Nat.pow_eq] at hunit hle ⊢
  subst hunit
  have hone : 0 < 2 ^ one := Nat.two_pow_pos one
  have hbound : 2 ^ (half + 54) - 2 ^ half = (2 ^ 54 - 1) * 2 ^ half := by
    rw [pow_add, Nat.mul_comm, Nat.sub_one_mul]
  have hlow := le_log2_div_iff hden (num * 2 ^ one) (show 0 < half + 53 + one by omega)
  have hhigh := le_log2_div_iff hden (num * 2 ^ one) (show 0 < half + 54 + one by omega)
  rw [pow_add, Nat.mul_right_comm, Nat.mul_le_mul_right_iff hone] at hlow hhigh
  rcases Nat.lt_trichotomy (num * 2 ^ one / den).log2 (half + 53 + one) with hlt | heq | hgt
  · -- below the largest exponent all is in range, and the bound is above
    have hless : num < 2 ^ (half + 53) * den := by
      rw [← Nat.not_le, ← hlow]
      omega
    have hhalf : 2 ^ (half + 53) ≤ (2 ^ 54 - 1) * 2 ^ half := by
      rw [pow_add, Nat.mul_comm]
      exact Nat.mul_le_mul_right _ (by norm_num)
    rw [hbound]
    constructor
    · rintro (h | ⟨-, h⟩) <;> omega
    · intro h
      have := (Nat.mul_le_mul_right den hhalf).trans h
      omega
  · -- at the largest exponent the significand decides
    have hexp : p = one + half + 1 := by omega
    have hpow : den * 2 ^ p = 2 ^ half * den * (2 * 2 ^ one) := by
      rw [hexp, pow_succ, pow_add]
      ring
    have hleft :
        (2 ^ 54 - 1) * (2 ^ half * den * (2 * 2 ^ one)) = (2 ^ 54 - 1) * 2 ^ half * den * (2 * 2 ^ one) := by
      ring
    have hright : 2 * (num * 2 ^ one) = num * (2 * 2 ^ one) := by ring
    have hcarry := significand_eq_iff hden hle
    rw [hpow, hleft, hright, Nat.mul_le_mul_right_iff (by omega)] at hcarry
    rw [hbound, ← hcarry, hpow]
    constructor
    · rintro (h | ⟨h, -⟩)
      · omega
      · exact h
    · intro h
      exact Or.inr ⟨h, hexp⟩
  · have hmore : 2 ^ (half + 54) * den ≤ num := hhigh.1 (by omega)
    constructor
    · intro _
      exact (Nat.mul_le_mul_right den (Nat.sub_le _ _)).trans hmore
    · intro _
      exact Or.inl (by omega)

/-- **A quotient is out of range exactly from 2^1024 - 2^970 on.** -/
theorem ofRatio_eq_infinite_iff (hden : 0 < den) (negative : Bool) :
    ofRatio negative num den = .infinite negative ↔ (2 ^ 1024 - 2 ^ 970) * den ≤ num := by
  have hunit : unitsPerOne = Nat.pow 2 1074 := by
    unfold unitsPerOne
    with_reducible rfl
  have hrange := out_of_range_iff hden hunit 970 rfl (significand_le hden (num * unitsPerOne))
  have htop : 970 + 54 = 1024 := by norm_num
  have hmax : 1074 + 970 + 1 = maxExponent := by decide
  rw [htop, hmax] at hrange
  unfold ofRatio
  simp only [ofParts_eq_infinite_iff]
  exact hrange

end Ratio

theorem ofRatio_cases (negative : Bool) (num den : Nat) :
    ofRatio negative num den = .infinite negative ∨ ∃ m p, ofRatio negative num den = .finite negative m p := by
  unfold ofRatio
  rcases ofParts_cases negative
    (roundDiv (num * unitsPerOne) (den * Nat.pow 2 ((num * unitsPerOne / den).log2 - 52)))
    ((num * unitsPerOne / den).log2 - 52) with ⟨heq, -⟩ | ⟨hfinite, -⟩
  · exact Or.inl heq
  · exact Or.inr hfinite

/-- The quotient of two integers is out of range exactly from there on. -/
theorem divide?_eq_none_iff {a : Int} {b : Nat} (hb : 0 < b) :
    divide? a b = none ↔ (2 ^ 1024 - 2 ^ 970) * b ≤ a.natAbs := by
  rw [← ofRatio_eq_infinite_iff hb (decide (a < 0))]
  unfold divide?
  rcases ofRatio_cases (decide (a < 0)) a.natAbs b with heq | ⟨m, p, heq⟩
  · rw [heq]
    exact ⟨fun _ => rfl, fun _ => rfl⟩
  · rw [heq]
    constructor <;> intro h <;> cases h

end Binary64

end Demotion
