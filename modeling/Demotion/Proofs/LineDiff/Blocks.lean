import Demotion.Proofs.LineDiff.Patch

/-!
# Comparing block by block

Lines that stand above a cut are compared as if there were nothing below it, and those below as if there were
nothing above, as long as both sources are cut after the same number of lines. Only below the cut can a source
run out of lines.

* `HasLines.append`: a source that is cut at a line feed has the lines of its two parts.
* `sideBySide_append`, `entriesFrom_append`: lines side by side and their entries are cut where the lines are.
* `entriesFrom_add`: the numbers of the lines above are added to those of the entries.
* `compute_append`: **the comparison of two blocks is that of the first and then that of the second, further
  down.**
-/

namespace Demotion.LineDiff

/-! ## Lines of two parts -/

/-- A source that is cut at a line feed has the lines of its two parts. A carriage return before the cut would
belong to the line feed and not to the first part. -/
theorem HasLines.append {s t : List Char} {above below : List (List Char)} (h : HasLines s above)
    (hr : s.getLast? ≠ some '\r') (ht : HasLines t below) : HasLines (s ++ '\n' :: t) (above ++ below) := by
  -- the last character of what follows a line end is the last of all
  have hlast : ∀ {front rest : List Char}, (front ++ rest).getLast? ≠ some '\r' → rest.getLast? ≠ some '\r' := by
    intro front rest hne hrest
    apply hne
    rw [List.getLast?_append, hrest]
    rfl
  induction h with
  | last hline => exact .feed hline hr ht
  | @feed line s lines hline hend _ ih =>
    have hrest : HasLines (s ++ '\n' :: t) (lines ++ below) := by
      apply ih
      rw [List.append_cons] at hr
      exact hlast hr
    rw [List.append_assoc, List.cons_append, List.cons_append]
    exact .feed hline hend hrest
  | @returnFeed line s lines hline _ ih =>
    have hrest : HasLines (s ++ '\n' :: t) (lines ++ below) := by
      apply ih
      rw [List.append_cons, List.append_cons] at hr
      exact hlast hr
    rw [List.append_assoc, List.cons_append, List.cons_append, List.cons_append]
    exact .returnFeed hline hrest

/-! ## Entries of two parts -/

/-- Above a cut after the same number of lines, no line is missing. -/
theorem sideBySide_append {a b : List (List Char)} (hlen : a.length = b.length) (a' b' : List (List Char)) :
    sideBySide (a ++ a') (b ++ b') = sideBySide a b ++ sideBySide a' b' := by
  induction a generalizing b with
  | nil =>
    obtain rfl : b = [] := List.length_eq_zero_iff.1 hlen.symm
    rw [sideBySide, List.nil_append, List.nil_append, List.nil_append]
  | cons x a ih =>
    cases b with
    | nil => cases hlen
    | cons y b =>
      have hrest := ih (b := b) (Nat.succ.inj hlen)
      rw [List.cons_append, List.cons_append, sideBySide, sideBySide, hrest, List.cons_append]

theorem entriesFrom_append (n : Nat) (front back : List (List Char × List Char)) :
    entriesFrom n (front ++ back) = entriesFrom n front ++ entriesFrom (n + front.length) back := by
  induction front generalizing n with
  | nil => rfl
  | cons pair front ih =>
    obtain ⟨x, y⟩ := pair
    have hnumber : n + (((x, y) :: front).length) = n + 1 + front.length := by
      rw [List.length_cons]
      omega
    rw [hnumber, List.cons_append, entriesFrom, entriesFrom, ih (n + 1)]
    split
    · rfl
    · rfl

/-- The entry of the same lines, `k` lines further down. -/
def Entry.below (k : Nat) (e : Entry) : Entry :=
  { e with line := e.line + k }

/-- The numbers of the lines above are added, and nothing else changes. -/
theorem entriesFrom_add (n k : Nat) (pairs : List (List Char × List Char)) :
    entriesFrom (n + k) pairs = (entriesFrom n pairs).map (Entry.below k) := by
  induction pairs generalizing n with
  | nil => rfl
  | cons pair pairs ih =>
    obtain ⟨x, y⟩ := pair
    have hrest := ih (n + 1)
    rw [Nat.add_right_comm] at hrest
    rw [entriesFrom, entriesFrom, hrest]
    split
    · rfl
    · rfl

/-! ## Whole sources -/

/-- The entries of two sources are those of their lines. -/
theorem compute_eq {before after : String} {a b : List (List Char)} (ha : HasLines before.toList a)
    (hb : HasLines after.toList b) : compute before after = entriesFrom 1 (sideBySide a b) := by
  rw [hasLines_iff.1 ha, hasLines_iff.1 hb]
  rfl

/-- **Comparing two blocks is comparing the first and then the second.** Two sources are cut at a line feed after
the same number `k` of lines, which no carriage return belongs to. Then the entries are those of the parts above
and, `k` lines further down, those of the parts below, whatever stands there and however many lines it has. -/
theorem compute_append {before after : String} {a b : List (List Char)} {k : Nat} (ha : HasLines before.toList a)
    (hb : HasLines after.toList b) (hak : a.length = k) (hbk : b.length = k)
    (hra : before.toList.getLast? ≠ some '\r') (hrb : after.toList.getLast? ≠ some '\r')
    (before' after' : String) :
    compute (before ++ "\n" ++ before') (after ++ "\n" ++ after') =
      compute before after ++ (compute before' after').map (Entry.below k) := by
  have hcut : ∀ s t : String, (s ++ "\n" ++ t).toList = s.toList ++ '\n' :: t.toList := by
    intro s t
    rw [String.toList_append, String.toList_append, List.append_assoc]
    rfl
  have ha' := hasLines_sourceLines before'.toList
  have hb' := hasLines_sourceLines after'.toList
  have hbefore : HasLines (before ++ "\n" ++ before').toList (a ++ sourceLines before'.toList) := by
    rw [hcut]
    exact ha.append hra ha'
  have hafter : HasLines (after ++ "\n" ++ after').toList (b ++ sourceLines after'.toList) := by
    rw [hcut]
    exact hb.append hrb hb'
  -- above the cut stand `k` pairs
  have hpairs : (sideBySide a b).length = k := by
    rw [length_sideBySide]
    omega
  rw [compute_eq hbefore hafter, compute_eq ha hb, compute_eq ha' hb', sideBySide_append (hak.trans hbk.symm),
    entriesFrom_append, hpairs, entriesFrom_add]

/-- Line ends of both kinds above the cut, and below it one source that has no more lines. -/
theorem compute_append_returns :
    compute ("float a;\r\nint b;" ++ "\n" ++ "") ("__fp16 a;\nint b;" ++ "\n" ++ "\r\n__fp16 c;\r") =
      compute "float a;\r\nint b;" "__fp16 a;\nint b;" ++
        (compute "" "\r\n__fp16 c;\r").map (Entry.below 2) :=
  compute_append (hasLines_sourceLines _) (hasLines_sourceLines _) (by decide) (by decide) (by decide) (by decide)
    _ _

end Demotion.LineDiff
