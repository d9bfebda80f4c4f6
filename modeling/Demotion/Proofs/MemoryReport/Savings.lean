import Mathlib.Data.List.TakeWhile
import Mathlib.Data.Nat.Digits.Defs
import Demotion.MemoryReport.Savings
import Demotion.Proofs.Number.Division

/-!
# Limits of the byte figures

The figures of a report are the integers at the head of two of its values. Reading them can fail at the number of
digits only, and computing with them at the size of one quotient only; all else is exact.

* `Leads`: the integer at the head of a value, told by the text of the value, and how many digits it has.
* `leadingInt_of_leads`: reading gives this integer, unless it has too many digits.
* `percentSaved?_eq_none_iff`: where the percentage is out of range.
* `savings_limits`: **byte figures fail exactly at these limits.**
-/

namespace Demotion

namespace Text

/-- A digit is no white space: the ten digits from a zero on stand apart from all of it. -/
theorem zeros_apart : ∀ z ∈ zeros, ∀ b ∈ blankRanges, z + 9 < b.1 ∨ b.2 < z := by
  decide +kernel

theorem exists_zero_of_isDigit {c : Char} (h : isDigit c = true) :
    ∃ z ∈ zeros, z ≤ c.toNat ∧ c.toNat < z + 10 := by
  unfold isDigit digitValue? at h
  rw [Option.isSome_map, List.find?_isSome] at h
  simpa using h

theorem not_isBlank_of_isDigit {c : Char} (h : isDigit c = true) : isBlank c = false := by
  obtain ⟨z, hz, hlow, hhigh⟩ := exists_zero_of_isDigit h
  rw [← Bool.not_eq_true]
  intro hblank
  unfold isBlank inRanges at hblank
  obtain ⟨b, hb, hin⟩ := List.any_eq_true.1 hblank
  have := zeros_apart z hz b hb
  simp only [Bool.and_eq_true, decide_eq_true_eq] at hin
  omega

end Text

namespace MemoryReport

open Text (isBlank isDigit digitValue?)

/-! ## The integer at the head of a value -/

/-- A text that has, after white space, a sign or none and then a run of digits, to which the next character does
not belong. -/
structure HasRun (text sign digits : List Char) : Prop where
  text : ∃ blanks rest, text = blanks ++ (sign ++ (digits ++ rest)) ∧ (∀ c ∈ blanks, isBlank c = true) ∧
    ∀ c, rest.head? = some c → isDigit c = false
  sign : sign = [] ∨ sign = ['+'] ∨ sign = ['-']
  digits : digits ≠ [] ∧ ∀ c ∈ digits, isDigit c = true

/-- The integer of a sign and decimal digits of any script, the last of which counts one. -/
def signedValue (sign digits : List Char) : Int :=
  let size : Nat := Nat.ofDigits 10 (digits.filterMap digitValue?).reverse
  if sign = ['-'] then -size else size

/-- The integer at the head of a value, and how many digits it is written with. A value without one, and a value
that is missing, count as 0. -/
def Leads (value : Option String) (n : Int) (count : Nat) : Prop :=
  (∃ sign digits, HasRun (value.getD "").toList sign digits ∧ n = signedValue sign digits ∧
    count = digits.length) ∨
    (∀ sign digits, ¬HasRun (value.getD "").toList sign digits) ∧ n = 0 ∧ count = 0

theorem ofDigits_eq (digits : List Char) :
    Integer.ofDigits digits = Nat.ofDigits 10 (digits.filterMap digitValue?).reverse := by
  have hstep : (fun n d : Nat => 10 * n + d) = fun n d => ((d : Nat) : Nat) + 10 * n := by
    funext n d
    exact Nat.add_comm _ _
  unfold Integer.ofDigits
  rw [Nat.ofDigits_eq_foldr, List.foldr_reverse, hstep]
  rfl

theorem ofSign_eq {sign : List Char} (digits : List Char) :
    Integer.ofSign (decide (sign = ['-'])) (Integer.ofDigits digits) = signedValue sign digits := by
  unfold Integer.ofSign signedValue
  rw [ofDigits_eq]
  simp

section Run

variable {text sign digits : List Char}

/-- A run starts where the white space before it ends. -/
theorem HasRun.dropWhile (h : HasRun text sign digits) :
    ∃ rest, text.dropWhile isBlank = sign ++ (digits ++ rest) ∧ ∀ c, rest.head? = some c → isDigit c = false := by
  obtain ⟨⟨blanks, rest, rfl, hblanks, hrest⟩, hsign, hne, hdigits⟩ := h
  refine ⟨rest, ?_, hrest⟩
  rw [List.dropWhile_append_of_pos hblanks]
  obtain ⟨d, more, rfl⟩ := List.exists_cons_of_ne_nil hne
  have hd := Text.not_isBlank_of_isDigit (hdigits d List.mem_cons_self)
  rcases hsign with rfl | rfl | rfl
  · exact List.dropWhile_cons_of_neg (by simp [hd])
  · exact List.dropWhile_cons_of_neg (by decide)
  · exact List.dropWhile_cons_of_neg (by decide)

/-- The sign before a run, and the run behind it. -/
theorem HasRun.splitSign (h : HasRun text sign digits) :
    ∃ rest, Integer.splitSign (text.dropWhile isBlank) = (decide (sign = ['-']), rest) ∧
      rest.takeWhile isDigit = digits := by
  obtain ⟨rest, hdrop, hrest⟩ := h.dropWhile
  obtain ⟨-, hsign, hne, hdigits⟩ := h
  have htake : (digits ++ rest).takeWhile isDigit = digits := by
    rw [List.takeWhile_append_of_pos hdigits]
    cases rest with
    | nil => rw [List.takeWhile_nil, List.append_nil]
    | cons c rest => rw [List.takeWhile_cons_of_neg (by simp [hrest c rfl]), List.append_nil]
  refine ⟨digits ++ rest, ?_, htake⟩
  rw [hdrop]
  rcases hsign with rfl | rfl | rfl
  · -- a digit is no sign
    obtain ⟨d, more, rfl⟩ := List.exists_cons_of_ne_nil hne
    have hd := hdigits d List.mem_cons_self
    have hminus : d ≠ '-' := by
      rintro rfl
      exact absurd hd (by decide)
    have hplus : d ≠ '+' := by
      rintro rfl
      exact absurd hd (by decide)
    simp only [List.nil_append, List.cons_append]
    unfold Integer.splitSign
    split
    · rename_i heq
      exact absurd (List.cons.inj heq).1 hminus
    · rename_i heq
      exact absurd (List.cons.inj heq).1 hplus
    · rfl
  · rfl
  · rfl

/-- Digits behind a sign or none are a run. -/
theorem hasRun_of_splitSign {negative : Bool} {rest : List Char}
    (h : Integer.splitSign (text.dropWhile isBlank) = (negative, rest)) (hne : rest.takeWhile isDigit ≠ []) :
    ∃ sign, HasRun text sign (rest.takeWhile isDigit) := by
  have hblanks : ∀ c ∈ text.takeWhile isBlank, isBlank c = true := fun c hc => List.mem_takeWhile_imp hc
  have hdigits : ∀ c ∈ rest.takeWhile isDigit, isDigit c = true := fun c hc => List.mem_takeWhile_imp hc
  have hend : ∀ c, (rest.dropWhile isDigit).head? = some c → isDigit c = false := by
    intro c hc
    have hnot := List.head?_dropWhile_not isDigit rest
    rw [hc] at hnot
    simpa using hnot
  have htext : ∀ sign : List Char, text.dropWhile isBlank = sign ++ rest →
      text = text.takeWhile isBlank ++ (sign ++ (rest.takeWhile isDigit ++ rest.dropWhile isDigit)) := by
    intro sign hsign
    rw [List.takeWhile_append_dropWhile, ← hsign, List.takeWhile_append_dropWhile]
  unfold Integer.splitSign at h
  split at h
  · rename_i heq
    cases h
    exact ⟨['-'], ⟨_, _, htext ['-'] heq, hblanks, hend⟩, Or.inr (Or.inr rfl), hne, hdigits⟩
  · rename_i heq
    cases h
    exact ⟨['+'], ⟨_, _, htext ['+'] heq, hblanks, hend⟩, Or.inr (Or.inl rfl), hne, hdigits⟩
  · cases h
    exact ⟨[], ⟨_, _, htext [] rfl, hblanks, hend⟩, Or.inl rfl, hne, hdigits⟩

end Run

/-- **Reading the integer at the head of a value** gives that integer, unless it has too many digits. -/
theorem leadingInt_of_leads {value : Option String} {n : Int} {count : Nat} (h : Leads value n count) :
    leadingInt value = if 4300 < count then .error (.longText count) else .ok n := by
  unfold leadingInt
  rcases h with ⟨sign, digits, hrun, rfl, rfl⟩ | ⟨hno, rfl, rfl⟩
  · obtain ⟨rest, hsplit, htake⟩ := hrun.splitSign
    have hne : digits.isEmpty = false := by simpa using hrun.digits.1
    simp only [hsplit, htake, hne, Bool.false_eq_true, if_false, ofSign_eq]
    rfl
  · cases hsplit : Integer.splitSign ((value.getD "").toList.dropWhile isBlank) with
    | mk negative rest =>
      have hnil : rest.takeWhile isDigit = [] := by
        by_contra hne
        obtain ⟨sign, hrun⟩ := hasRun_of_splitSign hsplit hne
        exact hno _ _ hrun
      simp [hsplit, hnil]

theorem exists_leads (value : Option String) : ∃ n count, Leads value n count := by
  by_cases h : ∃ sign digits, HasRun (value.getD "").toList sign digits
  · obtain ⟨sign, digits, hrun⟩ := h
    exact ⟨_, _, Or.inl ⟨sign, digits, hrun, rfl, rfl⟩⟩
  · refine ⟨0, 0, Or.inr ⟨fun sign digits hrun => ?_, rfl, rfl⟩⟩
    exact h ⟨sign, digits, hrun⟩

/-! ## The percentage -/

/-- There is no percentage exactly if there are bytes before and the quotient is out of range. -/
theorem percentSaved?_eq_none_iff (before saved : Int) :
    percentSaved? before saved = none ↔ 0 < before ∧ (2 ^ 1024 - 2 ^ 970) * before ≤ |saved| := by
  unfold percentSaved?
  by_cases hbefore : 0 < before
  · have hpos : 0 < before.toNat := by omega
    have hle : (2 : Nat) ^ 970 ≤ 2 ^ 1024 := pow_le_pow_right₀ (by norm_num) (by norm_num)
    have hbound : (((2 ^ 1024 - 2 ^ 970) * before.toNat : Nat) : Int) = (2 ^ 1024 - 2 ^ 970) * before := by
      rw [Nat.cast_mul, Nat.cast_sub hle, Nat.cast_pow, Nat.cast_pow, Nat.cast_ofNat,
        Int.toNat_of_nonneg hbefore.le]
    rw [if_pos hbefore, Option.map_eq_none_iff, Binary64.divide?_eq_none_iff hpos, Int.abs_eq_natAbs, ← hbound,
      Nat.cast_le]
    simp only [hbefore, true_and]
  · rw [if_neg hbefore]
    simp only [reduceCtorEq, hbefore, false_and]

/-- A percentage that there is: 0 without bytes before, and otherwise the quotient in percent, to one decimal
place. -/
def IsPercent (before saved : Int) (percent : Binary64) : Prop :=
  if 0 < before then
    ∃ quotient, Binary64.divide? saved before.toNat = some quotient ∧ percent = quotient.percent.roundTenth
  else percent = .finite false 0 0

theorem isPercent_of_percentSaved? {before saved : Int} {percent : Binary64}
    (h : percentSaved? before saved = some percent) : IsPercent before saved percent := by
  unfold percentSaved? at h
  unfold IsPercent
  split at h
  · rename_i hbefore
    obtain ⟨quotient, hquotient, rfl⟩ := Option.map_eq_some_iff.1 h
    rw [if_pos hbefore]
    exact ⟨quotient, hquotient, rfl⟩
  · rename_i hbefore
    rw [if_neg hbefore]
    exact (Option.some.inj h).symm

/-! ## The figures -/

section Figures

variable {r : MemoryReport} {before after : Int} {m n : Nat}

/-- Figures with too many digits. -/
theorem savings_of_long (hbefore : Leads (Assoc.find? "original_memory_usage" (r.table .memory)) before m)
    (hafter : Leads (Assoc.find? "after_demotion" (r.table .memory)) after n) (h : 4300 < m ∨ 4300 < n) :
    ∃ e, savings r = .error (.number e) := by
  unfold savings
  rw [leadingInt_of_leads hbefore, leadingInt_of_leads hafter]
  by_cases hm : 4300 < m
  · rw [if_pos hm]
    exact ⟨_, rfl⟩
  · rw [if_neg hm, if_pos (h.resolve_left hm)]
    exact ⟨_, rfl⟩

/-- Figures that can be read: the percentage decides. -/
theorem savings_of_short (hbefore : Leads (Assoc.find? "original_memory_usage" (r.table .memory)) before m)
    (hafter : Leads (Assoc.find? "after_demotion" (r.table .memory)) after n) (hm : m ≤ 4300) (hn : n ≤ 4300) :
    (percentSaved? before (before - after) = none ∧ savings r = .error .overflow) ∨
      ∃ percent, percentSaved? before (before - after) = some percent ∧
        savings r = .ok ⟨before, after, before - after, percent⟩ := by
  unfold savings
  rw [leadingInt_of_leads hbefore, leadingInt_of_leads hafter, if_neg (by omega), if_neg (by omega)]
  cases hpercent : percentSaved? before (before - after) with
  | none =>
    left
    simp only [hpercent, and_self]
  | some percent =>
    right
    exact ⟨percent, rfl, by simp only [hpercent]⟩

end Figures

/-- **Byte figures fail exactly at these limits.** Every value has an integer at its head, which is 0 if no
digits are there. The figures cannot be read exactly if one of the two integers has more than 4300 digits; if
both can be read, the percentage is out of range exactly if there are bytes before and the quotient is at least
2^1024 - 2^970 in size; and in all other cases the figures are the two integers and their difference, with a
percentage for which nothing is divided if there are no bytes before. -/
theorem savings_limits (r : MemoryReport) :
    (∀ value, ∃ n count, Leads value n count) ∧
    ∀ before after m n, Leads (Assoc.find? "original_memory_usage" (r.table .memory)) before m →
      Leads (Assoc.find? "after_demotion" (r.table .memory)) after n →
      ((∃ e, savings r = .error (.number e)) ↔ 4300 < m ∨ 4300 < n) ∧
      (m ≤ 4300 → n ≤ 4300 →
        (savings r = .error .overflow ↔ 0 < before ∧ (2 ^ 1024 - 2 ^ 970) * before ≤ |before - after|) ∧
        (¬(0 < before ∧ (2 ^ 1024 - 2 ^ 970) * before ≤ |before - after|) →
          ∃ percent, savings r = .ok ⟨before, after, before - after, percent⟩ ∧
            IsPercent before (before - after) percent)) := by
  refine ⟨exists_leads, ?_⟩
  intro before after m n hbefore hafter
  refine ⟨⟨?_, savings_of_long hbefore hafter⟩, ?_⟩
  · rintro ⟨e, he⟩
    by_contra hlong
    rcases savings_of_short hbefore hafter (by omega) (by omega) with ⟨-, hsavings⟩ | ⟨percent, -, hsavings⟩
    · rw [hsavings] at he
      cases he
    · rw [hsavings] at he
      cases he
  · intro hm hn
    rw [← percentSaved?_eq_none_iff]
    rcases savings_of_short hbefore hafter hm hn with ⟨hnone, hsavings⟩ | ⟨percent, hsome, hsavings⟩
    · exact ⟨iff_of_true hsavings hnone, fun h => absurd hnone h⟩
    · rw [hsavings, hsome]
      refine ⟨iff_of_false nofun nofun, fun _ => ?_⟩
      exact ⟨percent, rfl, isPercent_of_percentSaved? hsome⟩

/-- A report of one byte before, and of a negative number of bytes after. -/
def oneByte (after : List Char) : MemoryReport :=
  { MemoryReport.empty with
    ofMemory := [("original_memory_usage", " +01 byte"), ("after_demotion", String.ofList ('-' :: after))] }

theorem find?_oneByte (after : List Char) :
    Assoc.find? "original_memory_usage" ((oneByte after).table .memory) = some " +01 byte" ∧
      Assoc.find? "after_demotion" ((oneByte after).table .memory) = some (String.ofList ('-' :: after)) := by
  unfold oneByte MemoryReport.table
  simp [Assoc.find?]

theorem leads_oneByte (after : List Char) (hne : after ≠ []) (hdigits : after.all isDigit = true) :
    Leads (Assoc.find? "original_memory_usage" ((oneByte after).table .memory)) 1 2 ∧
      Leads (Assoc.find? "after_demotion" ((oneByte after).table .memory)) (signedValue ['-'] after)
        after.length := by
  have hone : ∀ c ∈ ['0', '1'], isDigit c = true := by
    rw [← List.all_eq_true]
    decide
  rw [(find?_oneByte after).1, (find?_oneByte after).2]
  constructor
  · refine Or.inl ⟨['+'], ['0', '1'], ⟨⟨[' '], " byte".toList, rfl, ?_, ?_⟩, by decide, by decide, hone⟩,
      by decide, rfl⟩
    · rw [← List.all_eq_true]
      decide
    · rintro c ⟨⟩
      decide
  · refine Or.inl ⟨['-'], after, ⟨⟨[], [], ?_, nofun, nofun⟩, by decide, hne, List.all_eq_true.1 hdigits⟩,
      rfl, rfl⟩
    rw [Option.getD_some, String.toList_ofList, List.append_nil]
    rfl

/-- With one byte before, one byte after decides whether the quotient is out of range. -/
theorem savings_limits_oneByte :
    savings (oneByte (Nat.toDigits 10 (2 ^ 1024 - 2 ^ 970 - 1))) = .error .overflow ∧
      ∃ percent, savings (oneByte (Nat.toDigits 10 (2 ^ 1024 - 2 ^ 970 - 2))) =
        .ok ⟨1, -(2 ^ 1024 - 2 ^ 970 - 2), 2 ^ 1024 - 2 ^ 970 - 1, percent⟩ := by
  obtain ⟨hbefore, hafter⟩ := leads_oneByte (Nat.toDigits 10 (2 ^ 1024 - 2 ^ 970 - 1)) (by decide +kernel)
    (by decide +kernel)
  obtain ⟨hbefore', hafter'⟩ := leads_oneByte (Nat.toDigits 10 (2 ^ 1024 - 2 ^ 970 - 2)) (by decide +kernel)
    (by decide +kernel)
  have hover := (((savings_limits _).2 _ _ _ _ hbefore hafter).2 (by decide) (by decide +kernel)).1.2
    (by decide +kernel)
  have hvalue : signedValue ['-'] (Nat.toDigits 10 (2 ^ 1024 - 2 ^ 970 - 2)) = -(2 ^ 1024 - 2 ^ 970 - 2) := by
    decide +kernel
  have hsaved : ∀ x : Int, 1 - -(x - 2) = x - 1 := by
    intro x
    omega
  rw [hvalue] at hafter'
  obtain ⟨percent, hin, -⟩ :=
    (((savings_limits _).2 _ _ _ _ hbefore' hafter').2 (by decide) (by decide +kernel)).2
    (by decide +kernel)
  rw [hsaved] at hin
  exact ⟨hover, percent, hin⟩

end MemoryReport

end Demotion
