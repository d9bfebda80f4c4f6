import Mathlib.Data.List.TakeWhile
import Demotion.Proofs.Text.Content
import Demotion.Workspace

/-!
# Names in workspaces

* `exists_names_workspace`: the path of a workspace has a last name, whatever the id is.
* `names_workspace`: if the id has no slash, that name is the only one below the directory of all
  workspaces, and it tells the id.
* `extensionOf_suffix`, `extensionOf_append`: the extension of a name is its end, from the last dot on.
* `sourceName_eq`: **the name of a source file** is `source` with one extension, without a slash.
* `Content.IsTaken`, `ofPath?_eq_none`: what the system takes in a path.
* `isTaken_sourceName`: the name of a source file is taken if that of the submission is.
-/

namespace Demotion

/-! ## Pieces of texts -/

namespace Text

variable {α : Type} [DecidableEq α] {sep : α}

theorem splitOn_of_not_mem {s : List α} (h : sep ∉ s) : splitOn sep s = [s] := by
  induction s with
  | nil => rfl
  | cons c s ih =>
    rw [List.mem_cons, not_or] at h
    rw [splitOn, if_neg (Ne.symm h.1), ih h.2]
    rfl

theorem exists_splitOn_cons {c : α} (hc : c ≠ sep) (s : List α) :
    ∃ piece pieces, splitOn sep (c :: s) = (c :: piece) :: pieces := by
  rw [splitOn, if_neg hc]
  cases splitOn sep s with
  | nil => exact ⟨[], [], rfl⟩
  | cons piece pieces => exact ⟨piece, pieces, rfl⟩

theorem mem_of_mem_splitOn {s piece : List α} {c : α} (h : piece ∈ splitOn sep s) (hc : c ∈ piece) :
    c ∈ s := by
  induction s generalizing piece with
  | nil =>
    rw [splitOn, List.mem_singleton] at h
    exact h ▸ hc
  | cons d s ih =>
    rw [splitOn] at h
    split at h
    · rcases List.mem_cons.1 h with rfl | h
      · cases hc
      · exact List.mem_cons_of_mem _ (ih h hc)
    · cases hs : splitOn sep s with
      | nil =>
        rw [hs, consHead, List.mem_singleton] at h
        obtain rfl := h
        obtain rfl := List.mem_singleton.1 hc
        exact List.mem_cons_self
      | cons first pieces =>
        rw [hs, consHead] at h
        rcases List.mem_cons.1 h with rfl | h
        · rcases List.mem_cons.1 hc with rfl | hc
          · exact List.mem_cons_self
          · exact List.mem_cons_of_mem _ (ih (hs ▸ List.mem_cons_self) hc)
        · exact List.mem_cons_of_mem _ (ih (hs ▸ List.mem_cons_of_mem _ h) hc)

theorem sep_not_mem_of_mem_splitOn {s piece : List α} (h : piece ∈ splitOn sep s) : sep ∉ piece := by
  induction s generalizing piece with
  | nil =>
    rw [splitOn, List.mem_singleton] at h
    rw [h]
    exact List.not_mem_nil
  | cons c s ih =>
    rw [splitOn] at h
    split at h
    · rcases List.mem_cons.1 h with rfl | h
      · exact List.not_mem_nil
      · exact ih h
    · rename_i hc
      cases hs : splitOn sep s with
      | nil =>
        rw [hs, consHead, List.mem_singleton] at h
        rw [h, List.mem_singleton]
        exact Ne.symm hc
      | cons first pieces =>
        rw [hs, consHead] at h
        rw [hs] at ih
        rcases List.mem_cons.1 h with rfl | h
        · rw [List.mem_cons, not_or]
          exact ⟨Ne.symm hc, ih List.mem_cons_self⟩
        · exact ih (List.mem_cons_of_mem first h)

theorem sep_not_mem_afterLast (s : List α) : sep ∉ afterLast sep s := by
  unfold afterLast
  intro h
  have := List.mem_takeWhile_imp (List.mem_reverse.1 h)
  simp at this

/-- A text around the last occurrence of a character. -/
theorem beforeLast_append_afterLast {s : List α} (h : sep ∈ s) :
    beforeLast sep s ++ sep :: afterLast sep s = s := by
  have hcut := List.takeWhile_append_dropWhile (p := (· ≠ sep)) (l := s.reverse)
  -- where the backward search stops, the character stands
  cases hdrop : s.reverse.dropWhile (· ≠ sep) with
  | nil =>
    rw [List.dropWhile_eq_nil_iff] at hdrop
    have := hdrop sep (List.mem_reverse.2 h)
    simp at this
  | cons d rest =>
    have hd := List.head?_dropWhile_not (· ≠ sep) s.reverse
    rw [hdrop] at hd hcut
    obtain rfl : d = sep := by simpa using hd
    have hs := congrArg List.reverse hcut
    unfold beforeLast afterLast
    rw [hdrop, List.drop_one, List.tail_cons]
    simpa using hs

/-- The parts around the last occurrence, where it is seen. -/
theorem around_last {front back : List α} (h : sep ∉ back) :
    beforeLast sep (front ++ sep :: back) = front ∧ afterLast sep (front ++ sep :: back) = back := by
  have hpass : ∀ c ∈ back.reverse, (decide (c ≠ sep)) = true := by
    intro c hc
    rw [decide_eq_true_eq]
    rintro rfl
    exact h (List.mem_reverse.1 hc)
  have hreverse : (front ++ sep :: back).reverse = back.reverse ++ sep :: front.reverse := by simp
  unfold beforeLast afterLast
  rw [hreverse, List.dropWhile_append_of_pos hpass, List.takeWhile_append_of_pos hpass]
  simp

end Text

/-! ## What the system takes in a path -/

/-- The system takes a content in a path: it has no null character, and its halves stand for bytes. -/
def Content.IsTaken (c : Content) : Prop :=
  .char '\x00' ∉ c ∧ ∀ n, .half n ∈ c → Content.isByte n = true

theorem Content.isTaken_append {c d : Content} : (c ++ d).IsTaken ↔ c.IsTaken ∧ d.IsTaken := by
  unfold Content.IsTaken
  simp only [List.mem_append, not_or, or_imp, forall_and]
  exact and_and_and_comm

theorem Content.isTaken_ofText {s : String} (h : '\x00' ∉ s.toList) : (Content.ofText s).IsTaken :=
  ⟨fun hmem => h (Content.char_mem_ofText.1 hmem), fun n hn => absurd hn (Content.half_not_mem_ofText s n)⟩

/-- A content that is not taken has a null character, or a half that stands for no byte. -/
theorem Content.not_isTaken {c : Content} :
    ¬c.IsTaken ↔ .char '\x00' ∈ c ∨ ∃ n, .half n ∈ c ∧ Content.isByte n = false := by
  unfold Content.IsTaken
  rw [not_and_or, not_not]
  simp

theorem ofContent?_eq_none {c : Content} : Failure.ofContent? c = none ↔ c.IsTaken := by
  have hrefused : c.refused? Content.isByte 0 = none ↔ ∀ n, .half n ∈ c → Content.isByte n = true :=
    Content.refused?_eq_none
  unfold Failure.ofContent? Content.IsTaken
  rw [← hrefused, ← Content.hasNull_eq_false]
  cases c.refused? Content.isByte 0 with
  | some e => simp
  | none => simp

theorem FilePath.mem_joined {x : CodePoint} (hx : x ≠ .char '/') (names : List Content) :
    x ∈ FilePath.joined names ↔ ∃ name ∈ names, x ∈ name := by
  fun_induction FilePath.joined names with
  | case1 => simp
  | case2 name => simp
  | case3 name rest _ ih => simp [ih, hx]

theorem FilePath.mem_content {x : CodePoint} (hslash : x ≠ .char '/') (hdot : x ≠ .char '.') (p : FilePath) :
    x ∈ p.content ↔ ∃ name ∈ p.names, x ∈ name := by
  have hstart : x ∉ Content.ofText p.start.text := by
    intro hmem
    cases hp : p.start <;> rw [hp] at hmem <;> simp [Start.text, Content.ofText, hslash] at hmem
  unfold FilePath.content
  split
  · rename_i hempty
    have hnames : p.names = [] := by
      simp only [Bool.and_eq_true, List.isEmpty_iff] at hempty
      exact hempty.2
    simp [hnames, Content.ofText, hdot]
  · rw [List.mem_append, or_iff_right hstart, FilePath.mem_joined hslash]

/-- **The system takes a path exactly if it takes its names.** -/
theorem ofPath?_eq_none {p : FilePath} : Failure.ofPath? p = none ↔ ∀ name ∈ p.names, name.IsTaken := by
  unfold Failure.ofPath?
  rw [ofContent?_eq_none, Content.IsTaken, FilePath.mem_content (by decide) (by decide)]
  have hhalf : ∀ n, .half n ∈ p.content ↔ ∃ name ∈ p.names, .half n ∈ name :=
    fun n => FilePath.mem_content (by simp) (by simp) p
  constructor
  · rintro ⟨hnull, hbytes⟩ name hname
    exact ⟨fun hmem => hnull ⟨name, hname, hmem⟩, fun n hn => hbytes n ((hhalf n).2 ⟨name, hname, hn⟩)⟩
  · intro h
    refine ⟨fun ⟨name, hname, hmem⟩ => (h name hname).1 hmem, fun n hn => ?_⟩
    obtain ⟨name, hname, hmem⟩ := (hhalf n).1 hn
    exact (h name hname).2 n hmem

theorem ofPath?_child {p : FilePath} (h : Failure.ofPath? p = none) (name : Content) :
    Failure.ofPath? (p.child name) = none ↔ name.IsTaken := by
  rw [ofPath?_eq_none] at h ⊢
  unfold FilePath.child
  simp only [List.forall_mem_append, List.forall_mem_singleton]
  exact and_iff_right h

/-- A text is a name as it stands. -/
theorem FileName.ofContent_ofText (s : String) : FileName.ofContent (Content.ofText s) = .text s := by
  unfold FileName.ofContent Content.ofText
  rw [CodePoint.text?_map_char]
  exact congrArg FileName.text (String.ofList_toList)

/-! ## The path of a workspace -/

/-- A name without a slash is a path of one name. -/
theorem ofText_of_not_mem {name : Content} (hslash : .char '/' ∉ name) (hempty : name ≠ [])
    (hdot : name ≠ [.char '.']) : FilePath.ofText name = ⟨.here, [name]⟩ := by
  have hstart : FilePath.Start.ofText name = .here := by
    have hnone : name.takeWhile (· = .char '/') = [] := by
      rw [List.takeWhile_eq_nil_iff]
      intro hlen hfirst
      exact hslash (of_decide_eq_true hfirst ▸ List.getElem_mem hlen)
    unfold FilePath.Start.ofText
    rw [hnone]
    rfl
  unfold FilePath.ofText
  rw [hstart, Text.splitOn_of_not_mem hslash, List.filter_cons_of_pos (by simp [hempty, hdot]), List.filter_nil]

theorem FilePath.joined_concat {names : List Content} (h : names ≠ []) (name : Content) :
    joined (names ++ [name]) = joined names ++ .char '/' :: name := by
  fun_induction joined names with
  | case1 => exact absurd rfl h
  | case2 first => rfl
  | case3 first rest hrest ih =>
    cases rest with
    | nil => exact absurd rfl hrest
    | cons second rest =>
      change first ++ .char '/' :: joined (second :: rest ++ [name]) = _
      rw [ih (List.cons_ne_nil _ _), List.append_assoc, List.cons_append]

theorem FilePath.content_child {p : FilePath} (h : p.names ≠ []) (name : Content) :
    (p.child name).content = p.content ++ .char '/' :: name := by
  have hempty : p.names.isEmpty = false := by simpa using h
  have hchild : (p.child name).names.isEmpty = false := by simp [FilePath.child]
  unfold FilePath.content
  simp only [hempty, hchild, Bool.and_false, Bool.false_eq_true, if_false]
  rw [show (p.child name).names = p.names ++ [name] from rfl, joined_concat h, ← List.append_assoc]
  rfl

/-- The path of an entry is longer by a slash and the name. -/
theorem FilePath.size_child {p : FilePath} (h : p.names ≠ []) (name : Content) :
    (p.child name).content.size = p.content.size + (1 + name.size) := by
  have hslash : Content.size (.char '/' :: name) = 1 + name.size := Content.size_append [.char '/'] name
  rw [content_child h, Content.size_append, hslash]

/-- Below the directory of all workspaces the path has at least one name. -/
theorem exists_names_workspace (ws : Workspaces) (id : String) (submittedName : Content) :
    ∃ front last, (ws.workspace id submittedName).path.names = front ++ [last] := by
  -- the text starts with a letter, so that its first piece is neither empty nor a dot
  have hne : (FilePath.ofText (Content.ofText ("ws_" ++ id))).names ≠ [] := by
    obtain ⟨piece, pieces, hsplit⟩ := Text.exists_splitOn_cons
      (show CodePoint.char 'w' ≠ .char '/' by decide) (Content.ofText "s_" ++ Content.ofText id)
    have htext : Content.ofText ("ws_" ++ id) = .char 'w' :: (Content.ofText "s_" ++ Content.ofText id) :=
      Content.ofText_append "ws_" id
    unfold FilePath.ofText
    rw [htext, hsplit, List.filter_cons_of_pos (by simp)]
    simp
  obtain ⟨front, last, hlast⟩ := List.eq_nil_or_concat _ |>.resolve_left hne
  refine ⟨ws.root.names ++ front, last, ?_⟩
  change ws.root.names ++ (FilePath.ofText (Content.ofText ("ws_" ++ id))).names = _
  rw [hlast, List.concat_eq_append, List.append_assoc]

theorem names_workspace (ws : Workspaces) {id : String} (hid : '/' ∉ id.toList) (submittedName : Content) :
    (ws.workspace id submittedName).path.names = ws.root.names ++ [Content.ofText ("ws_" ++ id)] := by
  have htext : Content.ofText ("ws_" ++ id) = .char 'w' :: .char 's' :: .char '_' :: Content.ofText id :=
    Content.ofText_append "ws_" id
  have hslash : .char '/' ∉ Content.ofText ("ws_" ++ id) := by
    rw [htext]
    simpa [Content.char_mem_ofText] using hid
  have hnames : (FilePath.ofText (Content.ofText ("ws_" ++ id))).names = [Content.ofText ("ws_" ++ id)] := by
    rw [ofText_of_not_mem hslash (by rw [htext]; simp) (by rw [htext]; simp)]
  change ws.root.names ++ (FilePath.ofText (Content.ofText ("ws_" ++ id))).names = _
  rw [hnames]

/-! ## The name of the source file -/

/-- The extension of a name is the end of the name. -/
theorem extensionOf_suffix (s : Content) : FilePath.extensionOf s <:+ s := by
  unfold FilePath.extensionOf
  split
  · exact List.nil_suffix
  · rename_i h
    have hdot : .char '.' ∈ s := by
      by_contra hno
      have hall : ∀ c ∈ s.reverse, decide (c ≠ CodePoint.char '.') = true := by
        intro c hc
        rw [decide_eq_true_eq]
        rintro rfl
        exact hno (List.mem_reverse.1 hc)
      apply h
      unfold Text.beforeLast
      rw [List.dropWhile_eq_nil_iff.2 hall]
      simp
    exact ⟨Text.beforeLast (.char '.') s, Text.beforeLast_append_afterLast hdot⟩

/-- An extension is a dot with something behind it, but no further dot. -/
theorem extensionOf_cases (s : Content) :
    FilePath.extensionOf s = [] ∨
      ∃ ext, FilePath.extensionOf s = .char '.' :: ext ∧ ext ≠ [] ∧ .char '.' ∉ ext := by
  unfold FilePath.extensionOf
  split
  · exact Or.inl rfl
  · rename_i h
    simp only [Bool.or_eq_true, decide_eq_true_eq, not_or] at h
    exact Or.inr ⟨_, rfl, h.2, Text.sep_not_mem_afterLast s⟩

/-- The extension of a name that has one. -/
theorem extensionOf_append {stem ext : Content} (hstem : stem ≠ []) (hext : ext ≠ []) (hdot : .char '.' ∉ ext) :
    FilePath.extensionOf (stem ++ .char '.' :: ext) = .char '.' :: ext := by
  obtain ⟨hbefore, hafter⟩ : Text.beforeLast (.char '.') (stem ++ .char '.' :: ext) = stem ∧
      Text.afterLast (.char '.') (stem ++ .char '.' :: ext) = ext := Text.around_last hdot
  unfold FilePath.extensionOf
  rw [hbefore, hafter]
  simp [hstem, hext]

/-- The last name of a path is one of the pieces between the slashes of its text. -/
theorem name_mem_splitOn (text : Content) :
    (FilePath.ofText text).name = [] ∨ (FilePath.ofText text).name ∈ Text.splitOn (.char '/') text := by
  unfold FilePath.name
  cases hlast : (FilePath.ofText text).names.getLast? with
  | none => exact Or.inl rfl
  | some name =>
    have hmem := List.mem_of_getLast? hlast
    unfold FilePath.ofText at hmem
    exact Or.inr (List.mem_of_mem_filter hmem)

theorem mem_of_mem_name {text : Content} {x : CodePoint} (h : x ∈ (FilePath.ofText text).name) : x ∈ text := by
  rcases name_mem_splitOn text with hname | hname
  · rw [hname] at h
    cases h
  · exact Text.mem_of_mem_splitOn hname h

theorem slash_not_mem_name (text : Content) : .char '/' ∉ (FilePath.ofText text).name := by
  rcases name_mem_splitOn text with hname | hname
  · rw [hname]
    exact List.not_mem_nil
  · exact Text.sep_not_mem_of_mem_splitOn hname

/-- A plain character of the extension of a submitted name is one of its last name. -/
theorem mem_name_of_mem_extension {name : Content} {c : Char} (hc : c.toNat ≤ 96)
    (h : .char c ∈ Submission.extension name) : .char c ∈ (FilePath.ofText name).name :=
  (extensionOf_suffix _).subset (Content.char_mem_of_mem_lower hc h)

/-- An extension in lower case is still a dot with something behind it, but no further dot. -/
theorem extension_cases (name : Content) :
    Submission.extension name = [] ∨
      ∃ ext, Submission.extension name = .char '.' :: ext ∧ ext ≠ [] ∧ .char '.' ∉ ext := by
  unfold Submission.extension FilePath.extension
  rcases extensionOf_cases (FilePath.ofText name).name with hnone | ⟨ext, hext, hne, hdot⟩
  · rw [hnone]
    exact Or.inl rfl
  · rw [hext]
    exact Or.inr (Content.lower_dot hne hdot)

/-- A name has an extension in lower case exactly if it has one. -/
theorem extension_eq_nil (name : Content) :
    Submission.extension name = [] ↔ FilePath.extensionOf (FilePath.ofText name).name = [] := by
  unfold Submission.extension FilePath.extension
  rcases extensionOf_cases (FilePath.ofText name).name with hnone | ⟨ext, hext, hne, hdot⟩
  · rw [hnone]
    exact iff_of_true rfl rfl
  · obtain ⟨ext', hlower, -, -⟩ := Content.lower_dot hne hdot
    rw [hext, hlower]
    exact iff_of_false (List.cons_ne_nil _ _) (List.cons_ne_nil _ _)

/-- The extension of the source file: that of the submitted name, or `.c`. -/
def Submission.sourceExtension (name : Content) : Content :=
  if Submission.extension name = [] then Content.ofText Submission.defaultExtension else Submission.extension name

/-- **The name of a source file** is `source` with one extension, which is not empty and has neither a further
dot nor a slash. -/
theorem sourceName_eq (name : Content) :
    ∃ ext, Submission.sourceName name = Content.ofText "source" ++ .char '.' :: ext ∧
      Submission.sourceExtension name = .char '.' :: ext ∧ ext ≠ [] ∧ .char '.' ∉ ext ∧ .char '/' ∉ ext := by
  have hname : Submission.sourceName name = Content.ofText "source" ++ Submission.sourceExtension name := rfl
  rw [hname]
  rcases extension_cases name with hnone | ⟨ext, hext, hne, hdot⟩
  · have hdefault : Submission.sourceExtension name = [.char '.', .char 'c'] := if_pos hnone
    exact ⟨[.char 'c'], by rw [hdefault], hdefault, by decide⟩
  · have hown : Submission.sourceExtension name = .char '.' :: ext := by
      unfold Submission.sourceExtension
      rw [if_neg, hext]
      rw [hext]
      exact List.cons_ne_nil _ _
    have hslash : .char '/' ∉ ext := by
      intro hmem
      have hin : .char '/' ∈ Submission.extension name := by
        rw [hext]
        exact List.mem_cons_of_mem _ hmem
      exact slash_not_mem_name name (mem_name_of_mem_extension (by decide) hin)
    exact ⟨ext, by rw [hown], hown, hne, hdot, hslash⟩

/-- The name of a source file is taken if that of the submission is. -/
theorem isTaken_sourceName {name : Content} (h : name.IsTaken) : (Submission.sourceName name).IsTaken := by
  have hext : (Submission.extension name).IsTaken := by
    refine ⟨fun hmem => h.1 (mem_of_mem_name (mem_name_of_mem_extension (by decide) hmem)), fun n hn => ?_⟩
    exact h.2 n (mem_of_mem_name ((extensionOf_suffix _).subset (Content.half_mem_lower.1 hn)))
  have hstem : (Content.ofText "source").IsTaken := Content.isTaken_ofText (by decide)
  have hdefault : (Content.ofText Submission.defaultExtension).IsTaken := Content.isTaken_ofText (by decide)
  have hname : Submission.sourceName name = Content.ofText "source" ++ Submission.sourceExtension name := rfl
  rw [hname, Content.isTaken_append]
  refine ⟨hstem, ?_⟩
  unfold Submission.sourceExtension
  split
  · exact hdefault
  · exact hext

end Demotion
