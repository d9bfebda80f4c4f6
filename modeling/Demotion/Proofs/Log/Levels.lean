import Demotion.Log.Setup
import Demotion.Proofs.Assoc
import Demotion.Proofs.Workspace.Names

/-!
# The levels of loggers

A setup gives levels to the loggers that it knows and to no others. Which level counts for a logger is said by
rules (`Governs`): its own, or that of the nearest logger above it that has one, or at last that of the root.

* `ownLevel_configure_of_mem`, `ownLevel_configure_of_not_mem`: what a setup does to the levels of loggers.
* `governs_iff`: **the level that counts is the one that the rules give.**
* `isEnabled_iff`: an entry counts if it has at least that level.
-/

namespace Demotion

theorem Text.beforeLast_concat {sep c : Char} (hc : c ≠ sep) (s : List Char) :
    beforeLast sep (s ++ [c]) = beforeLast sep s := by
  unfold beforeLast
  simp [hc]

namespace Log

open Assoc (find?)

/-! ## The levels that loggers are given -/

namespace Setup

/-- The levels that a setup gives, each to its logger. -/
def given (level : Level) : List (String × Level) :=
  serviceLoggers.map (fun name => (name, level)) ++ externalLevels

/-- The loggers that a setup knows. -/
def known : List String :=
  serviceLoggers ++ externalLevels.map Prod.fst

theorem known_nodup : known.Nodup := by decide

theorem names_given (level : Level) : (given level).map Prod.fst = known := rfl

/-- The levels that a setup gives count before those of old. -/
theorem find?_configure (s : Setup) (level : Level) (file : Option String) (name : String) :
    find? name (s.configure level file).levels = (find? name (given level)).or (find? name s.levels) := by
  have hlevels : (s.configure level file).levels =
      (given level).foldl (fun levels e => Assoc.set e.1 e.2 levels) s.levels := by
    unfold given configure
    rw [List.foldl_append, List.foldl_map]
  rw [hlevels]
  exact Assoc.find?_foldl_set (names_given level ▸ known_nodup) s.levels name

theorem ownLevel_configure_of_mem (s : Setup) {level : Level} (file : Option String) {e : String × Level}
    (h : e ∈ given level) : (s.configure level file).ownLevel e.1 = e.2 := by
  have hgiven : find? e.1 (given level) = some e.2 := (Assoc.mem_iff_find? (names_given level ▸ known_nodup)).1 h
  unfold ownLevel
  rw [find?_configure, hgiven]
  rfl

theorem ownLevel_configure_of_not_mem (s : Setup) (level : Level) (file : Option String) {name : String}
    (h : name ∉ known) : (s.configure level file).ownLevel name = s.ownLevel name := by
  have hgiven : find? name (given level) = none := Assoc.find?_of_not_mem (names_given level ▸ h)
  unfold ownLevel
  rw [find?_configure, hgiven]
  rfl

end Setup

/-! ## The level that counts -/

/-- **The level that counts for a logger.** The nearest logger above another has the name before the last dot; a
logger whose name has no dot, but perhaps one at the start, is right below the root. A level of 0 is none, except
at the root. -/
inductive Governs (s : Setup) : List Char → Level → Prop where
  | own {name : List Char} (h : s.ownLevel (String.ofList name) ≠ 0) :
      Governs s name (s.ownLevel (String.ofList name))
  | inherited {upper word : List Char} {level : Level}
      (hnone : s.ownLevel (String.ofList (upper ++ '.' :: word)) = 0) (hupper : upper ≠ []) (hword : '.' ∉ word)
      (h : Governs s upper level) : Governs s (upper ++ '.' :: word) level
  | root {name : List Char} (hnone : s.ownLevel (String.ofList name) = 0) (htop : '.' ∉ name.tail) :
      Governs s name s.root

/-- A name with no two dots in a row. -/
def HasSingleDots (name : List Char) : Prop :=
  ¬['.', '.'] <:+: name

theorem HasSingleDots.upper {upper word : List Char} (h : HasSingleDots (upper ++ '.' :: word)) :
    HasSingleDots upper ∧ upper.getLast? ≠ some '.' := by
  constructor
  · intro hdots
    exact h (hdots.trans (List.prefix_append upper ('.' :: word)).isInfix)
  · intro hlast
    obtain ⟨front, rfl⟩ := List.getLast?_eq_some_iff.1 hlast
    exact h ⟨front, word, by simp⟩

namespace Setup

variable {s : Setup}

/-- The paths above a path are those above it without its last character, unless that is a dot. -/
theorem above_dropLast {path : List Char} (h : path.getLast? ≠ some '.') : above path.dropLast = above path := by
  rcases List.eq_nil_or_concat path with rfl | ⟨front, c, rfl⟩
  · rfl
  · rw [List.concat_eq_append] at h ⊢
    have hc : c ≠ '.' := by
      rintro rfl
      exact h List.getLast?_concat
    rw [List.dropLast_concat, above.eq_def front, above.eq_def (front ++ [c]), Text.beforeLast_concat hc]

theorem above_append {upper word : List Char} (hsingle : HasSingleDots (upper ++ '.' :: word))
    (hupper : upper ≠ []) (hword : '.' ∉ word) : above (upper ++ '.' :: word) = upper :: above upper := by
  rw [above, (Text.around_last hword).1, if_neg hupper, above_dropLast hsingle.upper.2]

theorem above_of_top {path : List Char} (h : '.' ∉ path.tail) : above path = [] := by
  have hbefore : Text.beforeLast '.' path = [] := by
    by_cases hdot : '.' ∈ path
    · have hpath := Text.beforeLast_append_afterLast hdot
      cases hfront : Text.beforeLast '.' path with
      | nil => rfl
      | cons c front =>
        rw [hfront] at hpath
        rw [← hpath, List.cons_append, List.tail_cons] at h
        exact absurd (List.mem_append_right front List.mem_cons_self) h
    · have hpass : ∀ c ∈ path.reverse, decide (c ≠ '.') = true := by
        intro c hc
        exact decide_eq_true fun heq => hdot (heq ▸ List.mem_reverse.1 hc)
      unfold Text.beforeLast
      rw [List.dropWhile_eq_nil_iff.2 hpass]
      rfl
  rw [above, if_pos hbefore]

theorem effectiveLevel_of_own {name : String} (h : s.ownLevel name ≠ 0) :
    s.effectiveLevel name = s.ownLevel name := by
  unfold effectiveLevel
  simp [h]

/-- Without a level of its own, a logger has the one that is found above it. -/
theorem effectiveLevel_of_none {path : List Char} (h : s.ownLevel (String.ofList path) = 0) :
    s.effectiveLevel (String.ofList path) =
      ((((above path).map String.ofList).map s.ownLevel).find? (· ≠ 0)).getD s.root := by
  unfold effectiveLevel
  simp only [List.map_cons, String.toList_ofList]
  rw [List.find?_cons_of_neg (by simp [h])]

theorem effectiveLevel_append {upper word : List Char} (hsingle : HasSingleDots (upper ++ '.' :: word))
    (hnone : s.ownLevel (String.ofList (upper ++ '.' :: word)) = 0) (hupper : upper ≠ []) (hword : '.' ∉ word) :
    s.effectiveLevel (String.ofList (upper ++ '.' :: word)) = s.effectiveLevel (String.ofList upper) := by
  rw [effectiveLevel_of_none hnone, above_append hsingle hupper hword]
  unfold effectiveLevel
  rw [String.toList_ofList, List.map_cons]

end Setup

variable {s : Setup}

theorem Governs.effectiveLevel {name : List Char} {level : Level} (h : Governs s name level)
    (hsingle : HasSingleDots name) : s.effectiveLevel (String.ofList name) = level := by
  induction h with
  | own h => exact Setup.effectiveLevel_of_own h
  | inherited hnone hupper hword _ ih =>
    rw [Setup.effectiveLevel_append hsingle hnone hupper hword]
    exact ih hsingle.upper.1
  | root hnone htop =>
    rw [Setup.effectiveLevel_of_none hnone, Setup.above_of_top htop]
    rfl

/-- The rules give every logger a level. -/
theorem exists_governs (s : Setup) (name : List Char) : ∃ level, Governs s name level := by
  by_cases hown : s.ownLevel (String.ofList name) = 0
  · by_cases hdot : '.' ∈ name.tail
    · -- the name goes on above the last dot
      have hname := Text.beforeLast_append_afterLast (List.mem_of_mem_tail hdot)
      have hword : '.' ∉ Text.afterLast '.' name := Text.sep_not_mem_afterLast name
      have hupper : Text.beforeLast '.' name ≠ [] := by
        intro hnil
        rw [hnil, List.nil_append] at hname
        rw [← hname] at hdot
        exact hword hdot
      obtain ⟨level, hlevel⟩ := exists_governs s (Text.beforeLast '.' name)
      refine ⟨level, ?_⟩
      rw [← hname] at hown ⊢
      exact .inherited hown hupper hword hlevel
    · exact ⟨s.root, .root hown hdot⟩
  · exact ⟨_, .own hown⟩
termination_by name.length
decreasing_by
  have hlength := congrArg List.length hname
  rw [List.length_append, List.length_cons] at hlength
  omega

/-- **The level that counts for a logger is the one that the rules give.** -/
theorem governs_iff {name : List Char} (hsingle : HasSingleDots name) {level : Level} :
    Governs s name level ↔ s.effectiveLevel (String.ofList name) = level := by
  constructor
  · intro h
    exact h.effectiveLevel hsingle
  · rintro rfl
    obtain ⟨level, h⟩ := exists_governs s name
    rw [h.effectiveLevel hsingle]
    exact h

theorem isEnabled_iff {e : Entry} (hsingle : HasSingleDots e.logger.toList) :
    s.isEnabled e = true ↔ 0 < e.level ∧ ∃ level, Governs s e.logger.toList level ∧ level ≤ e.level := by
  unfold Setup.isEnabled
  rw [Bool.and_eq_true, decide_eq_true_iff, decide_eq_true_iff]
  refine and_congr_right fun _ => ?_
  simp only [governs_iff hsingle, String.ofList_toList, exists_eq_left']

end Log

end Demotion
