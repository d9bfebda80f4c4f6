import Demotion.Proofs.LineDiff.Patch

/-!
# Line ends make no difference

A source may end its lines with a line feed or with a carriage return and a line feed, and each line in its own
way. Taking away the carriage returns that belong to line ends gives back the source in which they were put,
whatever other carriage returns it has, as long as none of these stood right before a line feed already.

* `Returned`: a source with carriage returns put before some of its line feeds.
* `plainEnds_eq_iff`: **these are exactly the sources that come down to the source without them.**
* `compute_returned`: **putting carriage returns before line feeds leaves a comparison as it is.**
-/

namespace Demotion.LineDiff

/-- No carriage return stands right before a line feed. Elsewhere there may be any. -/
def HasPlainEnds (s : List Char) : Prop :=
  ¬['\r', '\n'] <:+: s

instance : DecidablePred HasPlainEnds := fun s => inferInstanceAs (Decidable (¬['\r', '\n'] <:+: s))

/-- A source, and the same with carriage returns put before some of its line feeds: none of them, all, or any
others. -/
inductive Returned : List Char → List Char → Prop where
  | nil : Returned [] []
  | keep (c : Char) {s s' : List Char} (h : Returned s s') : Returned (c :: s) (c :: s')
  | put {s s' : List Char} (h : Returned s s') : Returned ('\n' :: s) ('\r' :: '\n' :: s')

theorem Returned.refl (s : List Char) : Returned s s := by
  induction s with
  | nil => exact .nil
  | cons c s ih => exact .keep c ih

/-- A line feed at the start was there before. -/
theorem Returned.exists_feed {s s' : List Char} (h : Returned s ('\n' :: s')) : ∃ rest, s = '\n' :: rest := by
  cases h with
  | keep _ h => exact ⟨_, rfl⟩

/-- Every source is one without carriage returns before line feeds, with some put there. -/
theorem returned_plainEnds (s : List Char) : Returned (plainEnds s) s := by
  fun_induction plainEnds s with
  | case1 => exact .nil
  | case2 rest ih => exact .put ih
  | case3 c rest _ ih => exact .keep c ih

theorem HasPlainEnds.tail {c : Char} {s : List Char} (h : HasPlainEnds (c :: s)) : HasPlainEnds s :=
  fun hpair => h (hpair.trans (List.suffix_cons c s).isInfix)

/-- **Taking the carriage returns away undoes putting them there**, and nothing else. -/
theorem plainEnds_of_returned {s s' : List Char} (hplain : HasPlainEnds s) (h : Returned s s') :
    plainEnds s' = s := by
  induction h with
  | nil => rfl
  | put h ih => rw [plainEnds, ih hplain.tail]
  | @keep c s s' h ih =>
    -- a carriage return that is kept would belong to a line end only if it did so before
    have hkept : ∀ rest, c = '\r' → s' = '\n' :: rest → False := by
      intro rest hc hs'
      obtain ⟨tail, htail⟩ := (hs' ▸ h).exists_feed
      apply hplain
      rw [hc, htail]
      exact (List.prefix_append ['\r', '\n'] tail).isInfix
    rw [plainEnds, ih hplain.tail]
    exact hkept

/-- **The sources that come down to a source with plain ends** are those with carriage returns put before some of
its line feeds. -/
theorem plainEnds_eq_iff {s s' : List Char} (hplain : HasPlainEnds s) : plainEnds s' = s ↔ Returned s s' := by
  constructor
  · rintro rfl
    exact returned_plainEnds s'
  · exact plainEnds_of_returned hplain

/-- The lines are those of the source with plain ends. -/
theorem sourceLines_returned {s s' : List Char} (hplain : HasPlainEnds s) (h : Returned s s') :
    sourceLines s' = sourceLines s := by
  unfold sourceLines
  rw [plainEnds_of_returned hplain h, plainEnds_of_returned hplain (.refl s)]

/-- A carriage return put before a line end that has one already is one more character of the line. -/
example : sourceLines "a\r\r\n".toList ≠ sourceLines "a\r\n".toList := by decide

/-- **Line ends make no difference.** In two sources no carriage return stands right before a line feed. Then
carriage returns put before any of the line feeds of either or both leave the comparison as it is: the same lines
differ, with the same texts. -/
theorem compute_returned {before after before' after' : String} (hplain : HasPlainEnds before.toList)
    (hplain' : HasPlainEnds after.toList) (hbefore : Returned before.toList before'.toList)
    (hafter : Returned after.toList after'.toList) : compute before' after' = compute before after := by
  unfold compute
  rw [sourceLines_returned hplain hbefore, sourceLines_returned hplain' hafter]

/-- Empty lines, lone carriage returns at the start, at the end and around line feeds, and carriage returns put
before one of two line feeds and before two of three. -/
theorem compute_returned_lone :
    compute "\rfloat a;\n\r;\r\n\r" "\r\n__fp16 a;\n\r\n\r;" =
      compute "\rfloat a;\n\r;\n\r" "\n__fp16 a;\n\n\r;" := by
  have hbefore : plainEnds "\rfloat a;\n\r;\r\n\r".toList = "\rfloat a;\n\r;\n\r".toList := by decide
  have hafter : plainEnds "\r\n__fp16 a;\n\r\n\r;".toList = "\n__fp16 a;\n\n\r;".toList := by decide
  exact compute_returned (by decide) (by decide) (hbefore ▸ returned_plainEnds _) (hafter ▸ returned_plainEnds _)

end Demotion.LineDiff
