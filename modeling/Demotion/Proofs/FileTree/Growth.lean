import Demotion.Proofs.FileTree.Site

/-!
# Trees that grow, and trees that look alike

Making directories and files lets a tree grow: what was there stays, and files keep what they hold. Writing to a
file that is there changes what it holds, but nothing that following paths could tell.

* `Extends`: a tree that has grown. Paths that led somewhere lead there still.
* `extends_makeDirectories`, `extends_appendFile`: **making directories and opening files only lets a tree grow.**
* `SameKinds`: trees with things of the same kind at the same places. Paths lead to the same places in them.
* `kindAt?_assign`, `Site.sameKinds_fill`: a file written anew, and the same entries in both trees.
* `appendFile_of_readFile`: **what is written at the end of a file changes no other.**
-/

namespace Demotion

open Assoc (find?)

namespace Node

variable {top n : Node} {q place : Place} {name : FileName}

/-! ## Content -/

theorem kind_of_content {c : List UInt8} : {n : Node} → n.content = .ok c → n.kind = .file
  | .file _, _ => rfl
  | .link n, h => kind_of_content (n := n) h

theorem exists_content : {n : Node} → n.kind = .file → ∃ c, n.content = .ok c
  | .file c, _ => ⟨c, rfl⟩
  | .link n, h => exists_content (n := n) h

/-- Writing to a file, maybe by a link. -/
theorem exists_changed (c' : List UInt8) :
    {n : Node} → n.kind = .file → ∃ n', n.changed (some (.file c')) = some n' ∧ n'.content = .ok c'
  | .file _, _ => ⟨_, rfl, rfl⟩
  | .link n, h => by
    obtain ⟨n', hn', hc'⟩ := exists_changed c' (n := n) h
    exact ⟨.link n', by rw [changed, hn']; rfl, hc'⟩

/-- Writing what is there already. -/
theorem changed_content {c : List UInt8} : {n : Node} → n.content = .ok c → n.changed (some (.file c)) = some n
  | .file _, h => by cases h; rfl
  | .link n, h => by rw [changed, changed_content (n := n) h]; rfl

theorem content_withEntries (es : List (FileName × Node)) : (n : Node) → (n.withEntries es).content = n.content
  | .file _ => rfl
  | .directory _ => rfl
  | .closed _ _ => rfl
  | .link n => content_withEntries es n

/-! ## Nodes that take the place of others -/

/-- What may stand in the place of a node when a tree has grown: something of the same kind, and the same content
if it is a file. -/
structure Grows (m n : Node) : Prop where
  kind : m.kind = n.kind
  content : m.content = n.content

theorem Grows.refl (n : Node) : n.Grows n :=
  ⟨rfl, rfl⟩

theorem Grows.trans {m n k : Node} (h : m.Grows n) (h' : n.Grows k) : m.Grows k :=
  ⟨h.kind.trans h'.kind, h.content.trans h'.content⟩

theorem grows_withEntries (n : Node) (es : List (FileName × Node)) : n.Grows (n.withEntries es) :=
  ⟨(kind_withEntries es n).symm, (content_withEntries es n).symm⟩

theorem get?_cons_of_ne (h : n.kind ≠ .directory) (key : FileName) (rest : Place) :
    n.get? (key :: rest) = none := by
  rw [get?, entries_eq_nil h]
  rfl

/-- A node that is put into an open directory is there. -/
theorem get?_assign_concat (h : top.kindAt? q = some .directory) (cell : Option Node) :
    (top.assign (q ++ [name]) cell).get? (q ++ [name]) = cell := by
  obtain ⟨m, hm, hkind⟩ := Option.map_eq_some_iff.1 h
  rw [assign_concat, get?_append, get?_modify hm, Option.bind_some, get?_singleton, entries_withEntries _ hkind,
    Assoc.find?_assign_self]

/-- A node that is put in the place of another is there. -/
theorem get?_assign_self {m : Node} (h : top.get? place = some m) :
    (top.assign place (some n)).get? place = some n := by
  rcases List.eq_nil_or_concat place with rfl | ⟨q, name, rfl⟩
  · rfl
  · rw [List.concat_eq_append] at h ⊢
    obtain ⟨parent, hparent, hname⟩ := exists_parent h
    exact get?_assign_concat (Option.map_eq_some_iff.2 ⟨parent, hparent, kind_of_find? hname⟩) _

/-- Putting a node where it is already changes nothing. -/
theorem assign_self (h : top.get? place = some n) : top.assign place (some n) = top := by
  rcases List.eq_nil_or_concat place with rfl | ⟨q, name, rfl⟩
  · exact (Option.some.inj h).symm
  · rw [List.concat_eq_append] at h ⊢
    obtain ⟨parent, hparent, hname⟩ := exists_parent h
    have hsame : top.modify (Assoc.assign name (some n)) q = top.modify (fun es => es) q :=
      modify_congr hparent (Assoc.assign_of_find? hname)
    rw [assign_concat, hsame, modify_self]

theorem grows_modify_assign {p : Place} {m : Node} {cell : Option Node} (hp : ¬q ++ [name] <+: p)
    (h : top.get? p = some m) : ∃ m', (top.modify (Assoc.assign name cell) q).get? p = some m' ∧ m.Grows m' := by
  induction q generalizing top p with
  | nil =>
    cases p with
    | nil =>
      obtain rfl := Option.some.inj h
      exact ⟨_, rfl, grows_withEntries _ _⟩
    | cons key rest =>
      have hne : key ≠ name := by
        rintro rfl
        exact hp ⟨rest, rfl⟩
      rw [get?] at h
      obtain ⟨inner, hinner, -⟩ := Option.bind_eq_some_iff.1 h
      refine ⟨m, ?_, .refl m⟩
      rw [modify, get?, entries_withEntries _ (kind_of_find? hinner), Assoc.find?_assign_of_ne hne]
      exact h
  | cons k q ih =>
    cases hk : find? k top.entries with
    | none => exact ⟨m, by rw [modify_cons_none hk]; exact h, .refl m⟩
    | some inner =>
      cases p with
      | nil =>
        obtain rfl := Option.some.inj h
        rw [modify_cons_some hk]
        exact ⟨_, rfl, grows_withEntries _ _⟩
      | cons key rest =>
        rw [get?] at h
        rw [get?, find?_entries_modify_cons hk]
        by_cases hkey : k = key
        · -- the change is further down on this way
          subst hkey
          rw [hk] at h
          rw [if_pos rfl]
          exact ih (fun hbelow => hp (List.cons_prefix_cons.2 ⟨rfl, hbelow⟩)) h
        · rw [if_neg hkey]
          exact ⟨m, h, .refl m⟩

/-- What is done to an entry of a directory leaves everything that is not at it or below it. -/
theorem grows_assign {p : Place} {m : Node} (hp : ¬place <+: p) (h : top.get? p = some m) (cell : Option Node) :
    ∃ m', (top.assign place cell).get? p = some m' ∧ m.Grows m' := by
  rcases List.eq_nil_or_concat place with rfl | ⟨q, name, rfl⟩
  · exact absurd List.nil_prefix hp
  · rw [List.concat_eq_append] at hp ⊢
    rw [assign_concat]
    exact grows_modify_assign hp h

/-- What is put in the place of something that is no directory, and is of its kind, changes no kind. -/
theorem kindAt?_assign {n' : Node} (hn : top.get? place = some n) (hkind : n'.kind = n.kind)
    (hleaf : n.kind ≠ .directory) (p : Place) : (top.assign place (some n')).kindAt? p = top.kindAt? p := by
  have hleaf' : n'.kind ≠ .directory := hkind ▸ hleaf
  -- below the two nodes there is nothing
  have hbelow : ∀ rest, (n'.get? rest).map kind = (n.get? rest).map kind := by
    intro rest
    cases rest with
    | nil => exact congrArg some hkind
    | cons key rest => rw [get?_cons_of_ne hleaf, get?_cons_of_ne hleaf']
  rcases List.eq_nil_or_concat place with rfl | ⟨q, name, rfl⟩
  · obtain rfl := Option.some.inj hn
    exact hbelow p
  · rw [List.concat_eq_append] at hn ⊢
    rw [assign_concat]
    by_cases hp : ∃ key rest, p = q ++ key :: rest
    · obtain ⟨key, rest, rfl⟩ := hp
      obtain ⟨parent, hparent, hname⟩ := exists_parent hn
      unfold kindAt?
      rw [get?_append, get?_modify hparent, get?_append, hparent, Option.bind_some, Option.bind_some, get?, get?,
        entries_withEntries _ (kind_of_find? hname), Assoc.find?_assign]
      by_cases hkey : name = key
      · subst hkey
        rw [if_pos rfl, hname]
        exact hbelow rest
      · rw [if_neg hkey]
    · push Not at hp
      exact kindAt?_modify hp

end Node

namespace FileTree

variable {t t' t'' : FileTree} {p : FilePath} {place : Place}

/-! ## Growth -/

/-- A tree that has grown: at every place where there was a node there is one that may stand for it. -/
structure Extends (t t' : FileTree) : Prop where
  working : t.working = t'.working
  nodes : ∀ {place : Place} {n : Node}, t.top.get? place = some n →
    ∃ n', t'.top.get? place = some n' ∧ n.Grows n'

theorem Extends.refl (t : FileTree) : t.Extends t :=
  ⟨rfl, fun h => ⟨_, h, .refl _⟩⟩

theorem Extends.trans (h : t.Extends t') (h' : t'.Extends t'') : t.Extends t'' := by
  refine ⟨h.working.trans h'.working, fun hn => ?_⟩
  obtain ⟨n', hn', hgrows⟩ := h.nodes hn
  obtain ⟨n'', hn'', hgrows'⟩ := h'.nodes hn'
  exact ⟨n'', hn'', hgrows.trans hgrows'⟩

theorem Extends.locate (h : t.Extends t') (hloc : t.locate p = .ok place) : t'.locate p = .ok place := by
  have hdirectory : ∀ p, t.top.kindAt? p = some .directory → t'.top.kindAt? p = some .directory := by
    intro p hp
    obtain ⟨n, hn, hkind⟩ := Option.map_eq_some_iff.1 hp
    obtain ⟨n', hn', hgrows⟩ := h.nodes hn
    exact Option.map_eq_some_iff.2 ⟨n', hn', hgrows.kind ▸ hkind⟩
  unfold FileTree.locate at hloc ⊢
  split at hloc
  · cases hloc
  · rename_i hlen
    rw [if_neg hlen, ← h.working]
    exact walk_mono hdirectory hloc

/-- A file that can be read is found at the place to which its path leads. -/
theorem readFile_eq_ok {content : List UInt8} :
    t.readFile p = .ok content ↔
      ∃ place n, t.locate p = .ok place ∧ t.top.get? place = some n ∧ n.content = .ok content := by
  unfold readFile
  cases hloc : t.locate p with
  | error fault => simp
  | ok place =>
    cases hn : t.top.get? place with
    | none => simp [hn]
    | some n => cases hc : n.content <;> simp [hn, hc, Except.mapError]

theorem Extends.readFile (h : t.Extends t') {content : List UInt8} (hread : t.readFile p = .ok content) :
    t'.readFile p = .ok content := by
  obtain ⟨place, n, hloc, hn, hcontent⟩ := readFile_eq_ok.1 hread
  obtain ⟨n', hn', hgrows⟩ := h.nodes hn
  exact readFile_eq_ok.2 ⟨place, n', h.locate hloc, hn', hgrows.content ▸ hcontent⟩

theorem extends_assign (hfree : t.top.get? place = none) (cell : Option Node) :
    t.Extends { t with top := t.top.assign place cell } := by
  refine ⟨rfl, fun h => Node.grows_assign ?_ h cell⟩
  -- there is nothing below a place where there is nothing
  rintro ⟨rest, rfl⟩
  rw [Node.get?_append, hfree] at h
  cases h

theorem extends_makeDirectory (h : t.makeDirectory p = .ok t') : t.Extends t' := by
  unfold makeDirectory at h
  split at h
  · cases h
  · split at h
    · rename_i hfree
      cases h
      exact extends_assign hfree _
    · cases h

/-- **Making directories only lets a tree grow**, also if not all of them can be made. -/
theorem extends_makeDirectories (t : FileTree) (p : FilePath) : t.Extends (t.makeDirectories p).1 := by
  fun_induction makeDirectories t p with
  | case1 p made hmade => exact extends_makeDirectory hmade
  | case2 p e he hfault hnames => exact .refl t
  | case3 p e he hfault hnames tree e' hparent ih =>
    rw [hparent] at ih
    exact ih
  | case4 p e he hfault hnames tree hparent made hmade ih =>
    rw [hparent] at ih
    exact ih.trans (extends_makeDirectory hmade)
  | case5 p e he hfault hnames tree hparent e' hmade ih =>
    rw [hparent] at ih
    exact ih
  | case6 p e he hfault => exact .refl t

/-- A path from the top that leads to nothing leads to a free name in an open directory. -/
theorem exists_directory_of_free (hstart : p.start ≠ .here) (hloc : t.locate p = .ok place)
    (hfree : t.top.get? place = none) : ∃ q name, place = q ++ [name] ∧ t.top.kindAt? q = some .directory := by
  unfold FileTree.locate at hloc
  rw [if_neg hstart] at hloc
  split at hloc
  · cases hloc
  · rcases List.eq_nil_or_concat p.names with hnil | ⟨front, last, hlast⟩
    · rw [hnil, walk] at hloc
      obtain rfl : [] = place := Except.ok.inj hloc
      cases hfree
    · rw [hlast, List.concat_eq_append] at hloc
      obtain ⟨q, -, hdir, ⟨-, rfl⟩ | ⟨-, -, rfl⟩⟩ := walk_concat hloc
      · -- up from a directory there is a node
        obtain ⟨n, hn, -⟩ := Option.map_eq_some_iff.1 hdir
        obtain ⟨m, hm⟩ := Node.get?_dropLast hn
        rw [hm] at hfree
        cases hfree
      · exact ⟨q, _, rfl, hdir⟩

/-- **Opening a file to write at its end only lets a tree grow**, and the file is there afterwards. -/
theorem extends_appendFile (hstart : p.start ≠ .here) (h : t.appendFile p [] = .ok t') :
    t.Extends t' ∧ ∃ content, t'.readFile p = .ok content := by
  unfold appendFile updateFile Node.change at h
  cases hloc : t.locate p with
  | error fault => rw [hloc] at h; cases h
  | ok place =>
    rw [hloc] at h
    cases hn : t.top.get? place with
    | none =>
      simp only [hn, Except.ok.injEq] at h
      subst h
      have hextends := extends_assign hn (some (.file ([] ++ [])))
      obtain ⟨q, name, rfl, hdir⟩ := exists_directory_of_free hstart hloc hn
      exact ⟨hextends, [], readFile_eq_ok.2 ⟨_, _, hextends.locate hloc, Node.get?_assign_concat hdir _, rfl⟩⟩
    | some n =>
      cases hc : n.content with
      | error fault => simp only [hn, hc] at h; cases h
      | ok c =>
        simp only [hn, hc, List.append_nil] at h
        have hsame : { t with top := t.top.assign place (n.changed (some (.file c))) } = t' := Except.ok.inj h
        rw [Node.changed_content hc, Node.assign_self hn] at hsame
        obtain rfl : t = t' := hsame
        exact ⟨.refl t, c, readFile_eq_ok.2 ⟨place, n, hloc, hn, hc⟩⟩

/-! ## Trees that look alike -/

/-- Two trees in which things of the same kind are found at the same places. -/
structure SameKinds (t t' : FileTree) : Prop where
  working : t.working = t'.working
  kinds : ∀ place, t.top.kindAt? place = t'.top.kindAt? place

theorem SameKinds.refl (t : FileTree) : t.SameKinds t :=
  ⟨rfl, fun _ => rfl⟩

theorem SameKinds.symm (h : t.SameKinds t') : t'.SameKinds t :=
  ⟨h.working.symm, fun place => (h.kinds place).symm⟩

theorem SameKinds.trans (h : t.SameKinds t') (h' : t'.SameKinds t'') : t.SameKinds t'' :=
  ⟨h.working.trans h'.working, fun place => (h.kinds place).trans (h'.kinds place)⟩

theorem SameKinds.locate (h : t.SameKinds t') (p : FilePath) : t.locate p = t'.locate p := by
  unfold FileTree.locate
  rw [h.working, walk_congr fun place _ => h.kinds place]

theorem SameKinds.eq_none (h : t.SameKinds t') (hnone : t.top.get? place = none) : t'.top.get? place = none := by
  have hkind := h.kinds place
  unfold Node.kindAt? at hkind
  rw [hnone] at hkind
  exact Option.map_eq_none_iff.1 hkind.symm

theorem SameKinds.readFile (h : t.SameKinds t') {content : List UInt8} (hread : t.readFile p = .ok content) :
    ∃ content', t'.readFile p = .ok content' := by
  obtain ⟨place, n, hloc, hn, hcontent⟩ := readFile_eq_ok.1 hread
  have hkind : t'.top.kindAt? place = some .file := by
    rw [← h.kinds place]
    exact Option.map_eq_some_iff.2 ⟨n, hn, Node.kind_of_content hcontent⟩
  obtain ⟨n', hn', hfile⟩ := Option.map_eq_some_iff.1 hkind
  obtain ⟨c', hc'⟩ := Node.exists_content hfile
  exact ⟨c', readFile_eq_ok.2 ⟨place, n', h.locate p ▸ hloc, hn', hc'⟩⟩

/-- A directory that cannot be made in one of the trees cannot be made in the other. -/
theorem SameKinds.makeDirectory (h : t.SameKinds t') {e : FileError} (he : t.makeDirectory p = .error e) :
    t'.makeDirectory p = .error e := by
  unfold FileTree.makeDirectory at he ⊢
  rw [← h.locate p]
  cases hloc : t.locate p with
  | error fault => rw [hloc] at he; exact he
  | ok place =>
    rw [hloc] at he
    cases hn : t.top.get? place with
    | none => simp only [hn] at he; cases he
    | some n =>
      simp only [hn] at he
      cases hn' : t'.top.get? place with
      | none => rw [h.symm.eq_none hn'] at hn; cases hn
      | some n' => simp only [hn']; exact he

/-- A path that leads elsewhere reads what it did before something else was put in the place of a file. -/
theorem readFile_assign_of_ne {n n' : Node} (hn : t.top.get? place = some n) (hfile : n.kind = .file)
    (halike : t.SameKinds { t with top := t.top.assign place (some n') }) (hp : t.locate p ≠ .ok place) :
    FileTree.readFile { t with top := t.top.assign place (some n') } p = t.readFile p := by
  unfold FileTree.readFile
  rw [← halike.locate p]
  cases hloc : t.locate p with
  | error fault => rfl
  | ok other =>
    cases hm : t.top.get? other with
    | none => simp only [hm, halike.eq_none hm]
    | some m =>
      -- nothing is below a file
      have hbelow : ¬place <+: other := by
        rintro ⟨rest, rfl⟩
        cases rest with
        | nil => exact hp (hloc.trans (congrArg Except.ok (List.append_nil place)))
        | cons key rest =>
          rw [Node.get?_append, hn, Option.bind_some, Node.get?_cons_of_ne (by rw [hfile]; decide)] at hm
          cases hm
      obtain ⟨m', hm', hgrows⟩ := Node.grows_assign hbelow hm (some n')
      simp only [hm, hm', hgrows.content]

/-- **Writing at the end of a file that is there** succeeds, lets that file grow, and changes no other. -/
theorem appendFile_of_readFile {content : List UInt8} (h : t.readFile p = .ok content) (more : List UInt8) :
    ∃ t', t.appendFile p more = .ok t' ∧ t.SameKinds t' ∧ t'.readFile p = .ok (content ++ more) ∧
      ∀ q, t.locate q ≠ t.locate p → t'.readFile q = t.readFile q := by
  obtain ⟨place, n, hloc, hn, hcontent⟩ := readFile_eq_ok.1 h
  have hfile := Node.kind_of_content hcontent
  obtain ⟨n', hn', hcontent'⟩ := Node.exists_changed (content ++ more) hfile
  have hkind : n'.kind = n.kind := (Node.kind_of_content hcontent').trans hfile.symm
  have halike : t.SameKinds { t with top := t.top.assign place (some n') } :=
    ⟨rfl, fun p => (Node.kindAt?_assign hn hkind (by rw [hfile]; decide) p).symm⟩
  refine ⟨{ t with top := t.top.assign place (some n') }, ?_, halike, ?_, fun q hq => ?_⟩
  · unfold appendFile updateFile Node.change
    simp only [hloc, hn, hcontent, Except.map, Except.mapError, hn']
  · exact readFile_eq_ok.2 ⟨place, n', halike.locate p ▸ hloc, Node.get?_assign_self hn, hcontent'⟩
  · exact readFile_assign_of_ne hn hfile halike (hloc ▸ hq)

end FileTree

/-- Trees that look alike do so with the same further entries in one of their directories. -/
theorem Site.sameKinds_fill {t t' : FileTree} (h : t.SameKinds t') (σ : Site t) (σ' : Site t')
    (hplace : σ.place = σ'.place) (more : List (FileName × Node)) : (σ.fill more).SameKinds (σ'.fill more) := by
  refine ⟨h.working, fun p => ?_⟩
  by_cases hp : ∃ key rest, p = σ.place ++ key :: rest
  · obtain ⟨key, rest, rfl⟩ := hp
    have hentry := h.kinds (σ.place ++ [key])
    have hbelow := h.kinds (σ.place ++ key :: rest)
    have hfill := σ.get?_fill_cons more key rest
    have hfill' := σ'.get?_fill_cons more key rest
    unfold Node.kindAt? at hentry hbelow ⊢
    rw [Node.get?_append, σ.found, hplace, Node.get?_append, σ'.found, Option.bind_some, Option.bind_some,
      Node.get?, Node.get?] at hentry hbelow
    rw [hfill, hplace, hfill', Assoc.find?_append, Assoc.find?_append]
    unfold entries
    -- an entry that one of the directories has the other has too
    cases hfind : find? key σ.node.entries with
    | none =>
      rw [hfind] at hentry
      cases hfind' : find? key σ'.node.entries with
      | none => rfl
      | some n => rw [hfind'] at hentry; cases hentry
    | some n =>
      rw [hfind] at hentry hbelow
      cases hfind' : find? key σ'.node.entries with
      | none => rw [hfind'] at hentry; cases hentry
      | some n' => rw [hfind'] at hbelow; exact hbelow
  · push Not at hp
    have hp' : ∀ name rest, p ≠ σ'.place ++ name :: rest := hplace ▸ hp
    exact (Node.kindAt?_modify hp).trans ((h.kinds p).trans (Node.kindAt?_modify hp').symm)

end Demotion
