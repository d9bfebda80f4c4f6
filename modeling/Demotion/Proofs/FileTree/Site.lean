import Demotion.Proofs.FileTree.Laws

/-!
# Entries that come and go in one directory

A `Site` is an open directory of a tree. `Site.fill` is the tree with more entries in that directory, and
what is done to these entries can be said without the tree.

* `get?_fill`, `assign_fill`: looking up a further entry, and giving it another node or none.
* `locate_fill`: paths that can be followed in the tree can be followed in it with more entries.
* `kind_fill_congr`: the kind of what is found at a place depends only on the further entries that it is
  below of.
-/

namespace Demotion

open Assoc (find?)

/-- An open directory of a tree, or a link to one. -/
structure Site (t : FileTree) where
  place : Place
  node : Node
  found : t.top.get? place = some node
  isOpen : node.kind = .directory

namespace Site

theorem eq_of_place {t : FileTree} {σ τ : Site t} (h : σ.place = τ.place) : σ = τ := by
  obtain ⟨p, n, hp, _⟩ := σ
  obtain ⟨q, m, hq, _⟩ := τ
  obtain rfl : p = q := h
  rw [hp] at hq
  obtain rfl : n = m := Option.some.inj hq
  rfl

/-- The site at a place where an open directory is found. -/
theorem exists_of_kindAt? {t : FileTree} {q : Place} (h : t.top.kindAt? q = some .directory) :
    ∃ σ : Site t, σ.place = q := by
  obtain ⟨n, hn, hkind⟩ := Option.map_eq_some_iff.1 h
  exact ⟨⟨q, n, hn, hkind⟩, rfl⟩

variable {t : FileTree} (σ : Site t) {name : FileName} {more : List (FileName × Node)}

/-- The entries of the directory. -/
def entries : List (FileName × Node) :=
  σ.node.entries

/-- The tree with more entries in the directory. -/
def fill (more : List (FileName × Node)) : FileTree :=
  { t with top := t.top.modify (· ++ more) σ.place }

theorem fill_nil : σ.fill [] = t := by
  unfold fill
  simp only [List.append_nil, Node.modify_self]

theorem found_fill (more : List (FileName × Node)) :
    (σ.fill more).top.get? σ.place = some (σ.node.withEntries (σ.entries ++ more)) :=
  Node.get?_modify σ.found

/-- Below the directory its own entries come first. -/
theorem get?_fill_cons (more : List (FileName × Node)) (key : FileName) (rest : Place) :
    (σ.fill more).top.get? (σ.place ++ key :: rest) = (find? key (σ.entries ++ more)).bind (·.get? rest) := by
  rw [Node.get?_append, found_fill, Option.bind_some, Node.get?, Node.entries_withEntries _ σ.isOpen]

/-- A name that the directory does not have is looked up among the further entries. -/
theorem get?_fill (hfree : find? name σ.entries = none) (rest : Place) :
    (σ.fill more).top.get? (σ.place ++ name :: rest) = (find? name more).bind (·.get? rest) := by
  rw [get?_fill_cons, Assoc.find?_append, hfree, Option.none_or]

/-- Changes of the directory one after the other. -/
theorem modify_fill {f : List (FileName × Node) → List (FileName × Node)} {more' : List (FileName × Node)}
    (h : f (σ.entries ++ more) = σ.entries ++ more') :
    { σ.fill more with top := (σ.fill more).top.modify f σ.place } = σ.fill more' := by
  have hcongr : t.top.modify (fun es => f (es ++ more)) σ.place = t.top.modify (· ++ more') σ.place :=
    Node.modify_congr σ.found h
  unfold fill
  rw [Node.modify_modify, hcongr]

theorem assign_fill (hfree : find? name σ.entries = none) (cell : Option Node) :
    { σ.fill more with top := (σ.fill more).top.assign (σ.place ++ [name]) cell } =
      σ.fill (Assoc.assign name cell more) := by
  rw [Node.assign_concat]
  exact σ.modify_fill (Assoc.assign_append hfree cell)

/-- Putting a node into a further entry that is a directory. -/
theorem put_fill_child (hfree : find? name σ.entries = none) {es : List (FileName × Node)}
    (hes : find? name more = some (.directory es)) (key : FileName) (n : Node) :
    { σ.fill more with top := (σ.fill more).top.put (σ.place ++ [name] ++ [key]) n } =
      σ.fill (Assoc.set name (.directory (Assoc.set key n es)) more) := by
  have hfound : find? name (σ.entries ++ more) = some (.directory es) := by
    rw [Assoc.find?_append, hfree, hes]; rfl
  unfold Node.put
  rw [Node.assign_concat, Node.modify_concat]
  -- seen from the site, the change is one of the entry that leads down
  refine σ.modify_fill ?_
  rw [hfound]
  exact Assoc.set_append hfree

/-- An open directory of the tree is one whatever else the site has. -/
theorem directory_fill {p : Place} (h : t.top.kindAt? p = some .directory) :
    (σ.fill more).top.kindAt? p = some .directory := by
  by_cases hp : ∃ key rest, p = σ.place ++ key :: rest
  · -- below the site the entries that were there come first
    obtain ⟨key, rest, rfl⟩ := hp
    obtain ⟨n, hn, hkind⟩ := Option.map_eq_some_iff.1 h
    rw [Node.get?_append, σ.found, Option.bind_some, Node.get?] at hn
    obtain ⟨m, hm, hrest⟩ := Option.bind_eq_some_iff.1 hn
    have hfind : find? key (σ.entries ++ more) = some m := by
      rw [Assoc.find?_append, show find? key σ.entries = some m from hm]; rfl
    refine Option.map_eq_some_iff.2 ⟨n, ?_, hkind⟩
    rw [get?_fill_cons, hfind]
    exact hrest
  · push Not at hp
    rw [← h]
    exact Node.kindAt?_modify hp

theorem locate_fill {p : FilePath} {place : Place} (h : t.locate p = .ok place) :
    (σ.fill more).locate p = .ok place := by
  unfold FileTree.locate at h ⊢
  split at h
  · cases h
  · rename_i hlen
    rw [if_neg hlen]
    exact FileTree.walk_mono (fun _ => σ.directory_fill) h

/-- Two fillings look alike at a place that is below none of the entries in which they differ. -/
theorem kind_fill_congr {p : Place} {more more' : List (FileName × Node)}
    (h : ∀ key rest, p = σ.place ++ key :: rest → find? key more = find? key more') :
    (σ.fill more).top.kindAt? p = (σ.fill more').top.kindAt? p := by
  by_cases hp : ∃ key rest, p = σ.place ++ key :: rest
  · obtain ⟨key, rest, rfl⟩ := hp
    unfold Node.kindAt?
    rw [get?_fill_cons, get?_fill_cons, Assoc.find?_append, Assoc.find?_append, h key rest rfl]
  · push Not at hp
    exact (Node.kindAt?_modify hp).trans (Node.kindAt?_modify hp).symm

end Site

end Demotion
