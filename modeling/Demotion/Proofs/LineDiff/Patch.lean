import Mathlib.Tactic
import Demotion.LineDiff

/-!
# A comparison line by line is a patch

The entries of a comparison are enough to make the second source of the first: each line that has an entry
is overwritten, and all other lines stay.

* `HasLines`: the lines of a source, told by its text. Each source has them in one way (`hasLines_iff`).
* `entriesFrom_lines`, `mem_entriesFrom`: where the entries of lines side by side stand, and what they say.
* `patch_entriesFrom`: overwriting goes through the lines from the first to the last.
* `compute_isDiff`: **the entries are exactly the lines that differ, in order, and they are a complete patch.**
-/

namespace Demotion.LineDiff

/-! ## Lines -/

/-- A source and its lines. A line ends at a line feed, and a carriage return right before it belongs to the
end. What stands after the last line feed is a line too. -/
inductive HasLines : List Char → List (List Char) → Prop where
  | last {line : List Char} (h : '\n' ∉ line) : HasLines line [line]
  | feed {line s : List Char} {lines : List (List Char)} (h : '\n' ∉ line) (hr : line.getLast? ≠ some '\r')
      (hs : HasLines s lines) : HasLines (line ++ '\n' :: s) (line :: lines)
  | returnFeed {line s : List Char} {lines : List (List Char)} (h : '\n' ∉ line) (hs : HasLines s lines) :
      HasLines (line ++ '\r' :: '\n' :: s) (line :: lines)

theorem sourceLines_feed (s : List Char) : sourceLines ('\n' :: s) = [] :: sourceLines s := by
  unfold sourceLines
  rw [plainEnds, Text.splitOn, if_pos rfl]
  exact fun _ h => absurd h (by decide)

theorem sourceLines_returnFeed (s : List Char) : sourceLines ('\r' :: '\n' :: s) = [] :: sourceLines s := by
  unfold sourceLines
  rw [plainEnds, Text.splitOn, if_pos rfl]

theorem sourceLines_cons {c : Char} {s : List Char} (hn : c ≠ '\n') (hr : c = '\r' → s.head? ≠ some '\n') :
    sourceLines (c :: s) = Text.consHead c (sourceLines s) := by
  unfold sourceLines
  rw [plainEnds, Text.splitOn, if_neg hn]
  intro rest hc hs
  apply hr hc
  rw [hs]
  rfl

/-- What stands before the end of a line goes to the front of it. -/
theorem sourceLines_append {line rest first : List Char} {others : List (List Char)} (hn : '\n' ∉ line)
    (hr : line.getLast? = some '\r' → rest.head? ≠ some '\n') (h : sourceLines rest = first :: others) :
    sourceLines (line ++ rest) = (line ++ first) :: others := by
  induction line with
  | nil => exact h
  | cons c line ih =>
    rw [List.mem_cons, not_or] at hn
    have hline : sourceLines (line ++ rest) = (line ++ first) :: others := by
      apply ih hn.2
      intro hlast
      apply hr
      rw [List.getLast?_cons, hlast]
      rfl
    have hhead : c = '\r' → (line ++ rest).head? ≠ some '\n' := by
      intro hc
      cases line with
      | nil => exact hr (by rw [hc]; rfl)
      | cons d line =>
        intro hd
        have hd' : d = '\n' := Option.some.inj hd
        exact hn.2 (hd' ▸ List.mem_cons_self)
    rw [List.cons_append, sourceLines_cons (Ne.symm hn.1) hhead, hline]
    rfl

theorem HasLines.cons {c : Char} {s : List Char} {lines : List (List Char)} (hn : c ≠ '\n')
    (hr : c = '\r' → s.head? ≠ some '\n') (h : HasLines s lines) :
    HasLines (c :: s) (Text.consHead c lines) := by
  have hmem : ∀ {line : List Char}, '\n' ∉ line → '\n' ∉ c :: line := by
    intro line hline hmem
    rcases List.mem_cons.1 hmem with h | h
    · exact hn h.symm
    · exact hline h
  cases h with
  | last hline => exact .last (hmem hline)
  | @feed line s lines hline hlast hs =>
    show HasLines ((c :: line) ++ '\n' :: s) ((c :: line) :: lines)
    refine .feed (hmem hline) ?_ hs
    intro hc
    cases line with
    | nil =>
      -- the carriage return would belong to the end of the line
      have hc' : c = '\r' := Option.some.inj hc
      exact hr hc' rfl
    | cons d line => exact hlast hc
  | @returnFeed line s lines hline hs =>
    show HasLines ((c :: line) ++ '\r' :: '\n' :: s) ((c :: line) :: lines)
    exact .returnFeed (hmem hline) hs

theorem hasLines_sourceLines (s : List Char) : HasLines s (sourceLines s) := by
  fun_induction plainEnds s with
  | case1 => exact .last List.not_mem_nil
  | case2 rest ih =>
    rw [sourceLines_returnFeed, ← List.nil_append ('\r' :: '\n' :: rest)]
    exact .returnFeed List.not_mem_nil ih
  | case3 c rest hcr ih =>
    by_cases hc : c = '\n'
    · subst hc
      rw [sourceLines_feed, ← List.nil_append ('\n' :: rest)]
      exact .feed List.not_mem_nil nofun ih
    · have hr : c = '\r' → rest.head? ≠ some '\n' := by
        intro hc hhead
        obtain ⟨tail, htail⟩ := List.head?_eq_some_iff.1 hhead
        exact hcr tail hc htail
      rw [sourceLines_cons hc hr]
      exact ih.cons hc hr

/-- Each source has its lines in one way. -/
theorem hasLines_iff {s : List Char} {lines : List (List Char)} : HasLines s lines ↔ lines = sourceLines s := by
  constructor
  · intro h
    induction h with
    | @last line h =>
      have hlast : sourceLines (line ++ []) = [line ++ []] := sourceLines_append h nofun rfl
      rw [List.append_nil] at hlast
      exact hlast.symm
    | @feed line s lines h hr _ ih =>
      rw [sourceLines_append h (fun hlast => absurd hlast hr) (sourceLines_feed s), List.append_nil, ih]
    | @returnFeed line s lines h _ ih =>
      have hhead : ('\r' :: '\n' :: s).head? ≠ some '\n' := by
        rw [List.head?_cons]
        decide
      rw [sourceLines_append h (fun _ => hhead) (sourceLines_returnFeed s), List.append_nil, ih]
  · intro h
    rw [h]
    exact hasLines_sourceLines s

/-! ## Lines side by side -/

/-- Line `n` of a source, counted from 1; an empty one if the source does not have it. -/
def lineAt (lines : List (List Char)) (n : Nat) : List Char :=
  lines.getD (n - 1) []

section SideBySide

variable (a b : List (List Char))

theorem map_fst_sideBySide :
    (sideBySide a b).map Prod.fst = a.rightpad (max a.length b.length) [] := by
  fun_induction sideBySide a b with
  | case1 => rfl
  | case2 x a ih => simpa [List.rightpad] using ih
  | case3 y b ih => simpa [List.rightpad, List.replicate_succ] using ih
  | case4 x a y b ih => simpa [List.rightpad, Nat.add_max_add_right] using ih

theorem map_snd_sideBySide :
    (sideBySide a b).map Prod.snd = b.rightpad (max a.length b.length) [] := by
  fun_induction sideBySide a b with
  | case1 => rfl
  | case2 x a ih => simpa [List.rightpad, List.replicate_succ] using ih
  | case3 y b ih => simpa [List.rightpad] using ih
  | case4 x a y b ih => simpa [List.rightpad, Nat.add_max_add_right] using ih

theorem getElem?_rightpad (lines : List (List Char)) {n k : Nat} (hk : k < n) :
    (lines.rightpad n [])[k]? = some (lineAt lines (k + 1)) := by
  unfold List.rightpad lineAt
  rw [Nat.add_sub_cancel, List.getD_eq_getElem?_getD, List.getElem?_append]
  split
  · rename_i hlt
    rw [List.getElem?_eq_getElem hlt]
    rfl
  · rename_i hge
    rw [List.getElem?_replicate, if_pos (by omega), List.getElem?_eq_none (by omega)]
    rfl

theorem length_sideBySide : (sideBySide a b).length = max a.length b.length := by
  have hlen := congrArg List.length (map_fst_sideBySide a b)
  rw [List.length_map, List.rightpad, List.length_append, List.length_replicate] at hlen
  omega

/-- Side by side stand the lines of the same number. -/
theorem getElem?_sideBySide {k : Nat} (hk : k < max a.length b.length) :
    (sideBySide a b)[k]? = some (lineAt a (k + 1), lineAt b (k + 1)) := by
  have hfst := congrArg (·[k]?) (map_fst_sideBySide a b)
  have hsnd := congrArg (·[k]?) (map_snd_sideBySide a b)
  rw [List.getElem?_map, getElem?_rightpad a hk] at hfst
  rw [List.getElem?_map, getElem?_rightpad b hk] at hsnd
  obtain ⟨p, hp, hp₁⟩ := Option.map_eq_some_iff.1 hfst
  rw [hp] at hsnd ⊢
  rw [← hp₁, ← Option.some.inj hsnd]

end SideBySide

/-! ## Entries -/

section Entries

variable {pairs : List (List Char × List Char)} {n : Nat} {e : Entry}

/-- The entry of a line that differs. -/
def entryOf (n : Nat) (pair : List Char × List Char) : Entry :=
  ⟨n, String.ofList pair.1, String.ofList pair.2, classify pair.1 pair.2⟩

theorem mem_entriesFrom :
    e ∈ entriesFrom n pairs ↔ ∃ k pair, pairs[k]? = some pair ∧ pair.1 ≠ pair.2 ∧ e = entryOf (n + k) pair := by
  induction pairs generalizing n with
  | nil => simp [entriesFrom]
  | cons pair pairs ih =>
    -- the first pair is number `n`, and pair `k` of the others is number `n + 1 + k`
    have hsplit : (∃ k p, (pair :: pairs)[k]? = some p ∧ p.1 ≠ p.2 ∧ e = entryOf (n + k) p) ↔
        (pair.1 ≠ pair.2 ∧ e = entryOf n pair) ∨ e ∈ entriesFrom (n + 1) pairs := by
      rw [ih]
      constructor
      · rintro ⟨k, p, hp, hne, he⟩
        cases k with
        | zero =>
          obtain rfl : pair = p := Option.some.inj hp
          exact Or.inl ⟨hne, he⟩
        | succ k => exact Or.inr ⟨k, p, hp, hne, by rw [he, Nat.add_right_comm, Nat.add_assoc]⟩
      · rintro (⟨hne, he⟩ | ⟨k, p, hp, hne, he⟩)
        · exact ⟨0, pair, rfl, hne, he⟩
        · exact ⟨k + 1, p, hp, hne, by rw [he, Nat.add_right_comm, Nat.add_assoc]⟩
    rw [hsplit]
    obtain ⟨x, y⟩ := pair
    rw [entriesFrom]
    by_cases hxy : x = y
    · simp [hxy]
    · simp [hxy, entryOf]

/-- The lines of the entries come in order. -/
theorem entriesFrom_lines (n : Nat) (pairs : List (List Char × List Char)) :
    ((entriesFrom n pairs).map (·.line)).Pairwise (· < ·) := by
  induction pairs generalizing n with
  | nil => exact List.Pairwise.nil
  | cons pair pairs ih =>
    obtain ⟨x, y⟩ := pair
    rw [entriesFrom]
    split
    · exact ih (n + 1)
    · rw [List.map_cons, List.pairwise_cons]
      refine ⟨?_, ih (n + 1)⟩
      intro m hm
      obtain ⟨e, he, rfl⟩ := List.mem_map.1 hm
      obtain ⟨k, p, -, -, rfl⟩ := mem_entriesFrom.1 he
      show n < n + 1 + k
      omega

end Entries

/-! ## Patches -/

/-- Overwrites the lines that have entries. -/
def patch (entries : List Entry) (lines : List (List Char)) : List (List Char) :=
  entries.foldl (fun lines e => lines.set (e.line - 1) e.after.toList) lines

/-- Going through the lines, the entries of those that are left overwrite what is left. -/
theorem patch_entriesFrom (front : List (List Char)) (pairs : List (List Char × List Char)) :
    patch (entriesFrom (front.length + 1) pairs) (front ++ pairs.map Prod.fst) = front ++ pairs.map Prod.snd := by
  induction pairs generalizing front with
  | nil => rfl
  | cons pair pairs ih =>
    obtain ⟨x, y⟩ := pair
    have hnext := ih (front ++ [y])
    rw [List.length_append, List.length_singleton, List.append_assoc, List.append_assoc] at hnext
    rw [entriesFrom, List.map_cons, List.map_cons]
    split
    · rename_i hxy
      subst hxy
      exact hnext
    · unfold patch at hnext ⊢
      rw [List.foldl_cons, Nat.add_sub_cancel, String.toList_ofList, List.set_append_right _ _ (Nat.le_refl _),
        Nat.sub_self]
      exact hnext

/-! ## Empty lines at the end -/

/-- The same lines, but for empty ones at the end. -/
def AgreeUpToEnd (a b : List (List Char)) : Prop :=
  ∃ common i j, a = common ++ List.replicate i [] ∧ b = common ++ List.replicate j []

theorem lineAt_append_replicate (lines : List (List Char)) (i n : Nat) :
    lineAt (lines ++ List.replicate i []) n = lineAt lines n := by
  unfold lineAt
  rw [List.getD_eq_getElem?_getD, List.getD_eq_getElem?_getD, List.getElem?_append]
  split
  · rfl
  · rename_i hge
    have hnone : lines[n - 1]? = none := List.getElem?_eq_none (by omega)
    rw [hnone, List.getElem?_replicate]
    split <;> rfl

/-- A source that has no fewer lines and differs in none has only empty lines more. -/
theorem eq_append_replicate {a b : List (List Char)} (hlen : a.length ≤ b.length)
    (h : ∀ n, 1 ≤ n → lineAt a n = lineAt b n) : b = a ++ List.replicate (b.length - a.length) [] := by
  apply List.ext_getElem?
  intro k
  by_cases hk : k < b.length
  · have hpad := getElem?_rightpad a hk
    have hself := getElem?_rightpad b hk
    rw [List.rightpad, Nat.sub_self, List.replicate_zero, List.append_nil] at hself
    rw [List.rightpad] at hpad
    rw [hself, hpad, h (k + 1) (by omega)]
  · rw [List.getElem?_eq_none (by omega), List.getElem?_eq_none]
    rw [List.length_append, List.length_replicate]
    omega

theorem agreeUpToEnd_iff {a b : List (List Char)} :
    AgreeUpToEnd a b ↔ ∀ n, 1 ≤ n → lineAt a n = lineAt b n := by
  constructor
  · rintro ⟨common, i, j, rfl, rfl⟩ n -
    rw [lineAt_append_replicate, lineAt_append_replicate]
  · intro h
    rcases Nat.le_total a.length b.length with hlen | hlen
    · have hb := eq_append_replicate hlen h
      exact ⟨a, 0, _, (List.append_nil a).symm, hb⟩
    · have ha := eq_append_replicate hlen fun n hn => (h n hn).symm
      exact ⟨b, _, 0, ha, (List.append_nil b).symm⟩

/-! ## Whole sources -/

/-- What a comparison of lines `a` with lines `b` owes. -/
structure IsDiff (a b : List (List Char)) (entries : List Entry) : Prop where
  /-- The line numbers increase. -/
  increasing : (entries.map (·.line)).Pairwise (· < ·)
  /-- The entries are about lines of the longer source. -/
  inRange : ∀ e ∈ entries, 1 ≤ e.line ∧ e.line ≤ max a.length b.length
  /-- A line has an entry exactly if it differs. -/
  differs : ∀ n, 1 ≤ n → ((∃ e ∈ entries, e.line = n) ↔ lineAt a n ≠ lineAt b n)
  /-- An entry has both lines. -/
  shows : ∀ e ∈ entries, e.before = String.ofList (lineAt a e.line) ∧ e.after = String.ofList (lineAt b e.line)
  /-- Overwriting makes the second source of the first. -/
  patches : patch entries (a.rightpad (max a.length b.length) []) = b.rightpad (max a.length b.length) []
  /-- Without entries the sources are the same but for empty lines at the end. -/
  none_iff : entries = [] ↔ AgreeUpToEnd a b

section Compare

variable (a b : List (List Char))

theorem mem_entriesFrom_sideBySide {e : Entry} :
    e ∈ entriesFrom 1 (sideBySide a b) ↔
      ∃ n, 1 ≤ n ∧ n ≤ max a.length b.length ∧ lineAt a n ≠ lineAt b n ∧
        e = entryOf n (lineAt a n, lineAt b n) := by
  rw [mem_entriesFrom]
  constructor
  · rintro ⟨k, pair, hpair, hne, rfl⟩
    have hk : k < max a.length b.length := by
      rw [← length_sideBySide]
      exact (List.getElem?_eq_some_iff.1 hpair).1
    rw [getElem?_sideBySide a b hk] at hpair
    obtain rfl := Option.some.inj hpair
    exact ⟨k + 1, by omega, by omega, hne, by rw [Nat.add_comm 1 k]⟩
  · rintro ⟨n, hn, hmax, hne, rfl⟩
    obtain ⟨k, rfl⟩ : ∃ k, n = k + 1 := ⟨n - 1, by omega⟩
    exact ⟨k, _, getElem?_sideBySide a b (by omega), hne, by rw [Nat.add_comm 1 k]⟩

theorem lineAt_of_lt {lines : List (List Char)} {n : Nat} (h : lines.length < n) : lineAt lines n = [] := by
  unfold lineAt
  rw [List.getD_eq_getElem?_getD, List.getElem?_eq_none (by omega)]
  rfl

theorem exists_entry_iff {n : Nat} (hn : 1 ≤ n) :
    (∃ e ∈ entriesFrom 1 (sideBySide a b), e.line = n) ↔ lineAt a n ≠ lineAt b n := by
  simp only [mem_entriesFrom_sideBySide]
  constructor
  · rintro ⟨_, ⟨m, -, -, hne, rfl⟩, rfl⟩
    exact hne
  · intro hne
    refine ⟨_, ⟨n, hn, ?_, hne, rfl⟩, rfl⟩
    -- beyond both sources the lines are empty
    by_contra hmax
    rw [Nat.not_le, Nat.max_lt] at hmax
    rw [lineAt_of_lt hmax.1, lineAt_of_lt hmax.2] at hne
    exact hne rfl

theorem entriesFrom_sideBySide_isDiff : IsDiff a b (entriesFrom 1 (sideBySide a b)) where
  increasing := entriesFrom_lines 1 _
  inRange := by
    intro e he
    obtain ⟨n, hn, hmax, -, rfl⟩ := (mem_entriesFrom_sideBySide a b).1 he
    exact ⟨hn, hmax⟩
  differs := fun n hn => exists_entry_iff a b hn
  shows := by
    intro e he
    obtain ⟨n, -, -, -, rfl⟩ := (mem_entriesFrom_sideBySide a b).1 he
    exact ⟨rfl, rfl⟩
  patches := by
    have hpatch := patch_entriesFrom [] (sideBySide a b)
    rwa [map_fst_sideBySide, map_snd_sideBySide] at hpatch
  none_iff := by
    rw [agreeUpToEnd_iff]
    constructor
    · intro hnil n hn
      by_contra hne
      obtain ⟨e, he, -⟩ := (exists_entry_iff a b hn).2 hne
      rw [hnil] at he
      exact List.not_mem_nil he
    · intro hsame
      apply List.eq_nil_iff_forall_not_mem.2
      intro e he
      obtain ⟨n, hn, -, hne, -⟩ := (mem_entriesFrom_sideBySide a b).1 he
      exact hne (hsame n hn)

end Compare

/-- **The entries of a comparison are exactly the lines that differ, in order, and they are a complete patch.**
Each of the two sources has its lines in one way, and of these lines the comparison is a diff. -/
theorem compute_isDiff (before after : String) :
    ∃ a b, (∀ lines, HasLines before.toList lines ↔ lines = a) ∧
      (∀ lines, HasLines after.toList lines ↔ lines = b) ∧ IsDiff a b (compute before after) :=
  ⟨sourceLines before.toList, sourceLines after.toList, fun _ => hasLines_iff, fun _ => hasLines_iff,
    entriesFrom_sideBySide_isDiff _ _⟩

end Demotion.LineDiff
