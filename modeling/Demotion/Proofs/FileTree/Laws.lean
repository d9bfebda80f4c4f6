import Demotion.FileTree.Access
import Demotion.Proofs.Assoc

/-!
# Laws of trees of files

What changing the entries of one directory does to the rest of a tree.

* `get?_modify`: at the directory the new entries are found.
* `kindAt?_modify`: everywhere else the kind of what is found stays.
* `modify_modify`, `modify_congr`: changes of one directory one after the other are one change, and only
  what it does to the entries that are there counts.
* `walk_mono`: a path that can be followed can still be followed where all directories are still there.
* `walk_congr`: following a path depends only on the kinds of what is found on its way (`trail`).
-/

namespace Demotion

open Assoc

/-- A path leads on from open directories only. -/
theorem Kind.enter_eq_ok {kind : Option Kind} : Kind.enter kind = .ok () ↔ kind = some .directory := by
  rcases kind with _ | (_ | _ | ⟨_ | _ | _, fault⟩) <;> simp [Kind.enter]

namespace Node

/-! ## Nodes -/

theorem found_found : (n : Node) → n.found.found = n.found
  | .file _ => rfl
  | .directory _ => rfl
  | .closed _ _ => rfl
  | .link n => found_found n

theorem kind_found : (n : Node) → n.found.kind = n.kind
  | .file _ => rfl
  | .directory _ => rfl
  | .closed _ _ => rfl
  | .link n => kind_found n

theorem kind_withEntries (es : List (FileName × Node)) : (n : Node) → (n.withEntries es).kind = n.kind
  | .file _ => rfl
  | .directory _ => rfl
  | .closed _ _ => rfl
  | .link n => kind_withEntries es n

theorem entries_withEntries (es : List (FileName × Node)) :
    {n : Node} → n.kind = .directory → (n.withEntries es).entries = es
  | .directory _, _ => rfl
  | .link n, h => entries_withEntries es (n := n) h

theorem withEntries_withEntries (es ds : List (FileName × Node)) :
    (n : Node) → (n.withEntries ds).withEntries es = n.withEntries es
  | .file _ => rfl
  | .directory _ => rfl
  | .closed _ _ => rfl
  | .link n => congrArg Node.link (withEntries_withEntries es ds n)

theorem withEntries_entries : (n : Node) → n.withEntries n.entries = n
  | .file _ => rfl
  | .directory _ => rfl
  | .closed _ _ => rfl
  | .link n => congrArg Node.link (withEntries_entries n)

/-- Only an open directory has entries. -/
theorem entries_eq_nil : {n : Node} → n.kind ≠ .directory → n.entries = []
  | .file _, _ => rfl
  | .directory _, h => absurd rfl h
  | .closed _ _, _ => rfl
  | .link n, h => entries_eq_nil (n := n) h

theorem withEntries_of_ne (es : List (FileName × Node)) :
    {n : Node} → n.kind ≠ .directory → n.withEntries es = n
  | .file _, _ => rfl
  | .directory _, h => absurd rfl h
  | .closed _ _, _ => rfl
  | .link n, h => congrArg Node.link (withEntries_of_ne es (n := n) h)

theorem kind_of_find? {n m : Node} {name : FileName} (h : find? name n.entries = some m) :
    n.kind = .directory := by
  by_contra hkind
  rw [entries_eq_nil hkind] at h
  cases h

/-! ## Places -/

variable {top n : Node} {q : Place} {f g : List (FileName × Node) → List (FileName × Node)}

theorem get?_append (p rest : Place) : top.get? (p ++ rest) = (top.get? p).bind (·.get? rest) := by
  induction p generalizing top with
  | nil => rfl
  | cons name p ih =>
    rw [List.cons_append, get?, get?]
    cases find? name top.entries with
    | none => rfl
    | some m => exact ih

theorem get?_singleton (n : Node) (name : FileName) : n.get? [name] = find? name n.entries := by
  rw [get?]
  cases find? name n.entries <;> rfl

/-- A node below the top is an entry of the one above it. -/
theorem exists_parent {name : FileName} (h : top.get? (q ++ [name]) = some n) :
    ∃ parent, top.get? q = some parent ∧ find? name parent.entries = some n := by
  rw [get?_append] at h
  obtain ⟨parent, hparent, hname⟩ := Option.bind_eq_some_iff.1 h
  rw [get?_singleton] at hname
  exact ⟨parent, hparent, hname⟩

/-- Above a node there are nodes. -/
theorem get?_dropLast {p : Place} (h : top.get? p = some n) : ∃ m, top.get? p.dropLast = some m := by
  rcases List.eq_nil_or_concat p with rfl | ⟨q, name, rfl⟩
  · exact ⟨n, h⟩
  · rw [List.concat_eq_append] at h ⊢
    obtain ⟨parent, hparent, -⟩ := exists_parent h
    rw [List.dropLast_concat]
    exact ⟨parent, hparent⟩

theorem modify_cons_none {name : FileName} (h : find? name top.entries = none) :
    top.modify f (name :: q) = top := by
  rw [modify, h]

theorem modify_cons_some {name : FileName} (h : find? name top.entries = some n) :
    top.modify f (name :: q) = top.withEntries (set name (n.modify f q) top.entries) := by
  rw [modify, h]

/-- Below a change, an entry is looked up among the entries that it gives. -/
theorem find?_entries_modify_cons {name key : FileName} (h : find? name top.entries = some n) :
    find? key (top.modify f (name :: q)).entries =
      if name = key then some (n.modify f q) else find? key top.entries := by
  rw [modify_cons_some h, entries_withEntries _ (kind_of_find? h), find?_set]

theorem get?_modify (h : top.get? q = some n) :
    (top.modify f q).get? q = some (n.withEntries (f n.entries)) := by
  induction q generalizing top with
  | nil =>
    obtain rfl := Option.some.inj h
    rfl
  | cons name q ih =>
    rw [get?] at h
    obtain ⟨m, hm, hq⟩ := Option.bind_eq_some_iff.1 h
    rw [get?, find?_entries_modify_cons hm, if_pos rfl]
    exact ih hq

theorem kind_modify : (top.modify f q).kind = top.kind := by
  cases q with
  | nil => exact kind_withEntries _ top
  | cons name q =>
    cases hn : find? name top.entries with
    | none => rw [modify_cons_none hn]
    | some m => rw [modify_cons_some hn, kind_withEntries]

theorem modify_modify : (top.modify g q).modify f q = top.modify (fun es => f (g es)) q := by
  induction q generalizing top with
  | nil =>
    by_cases hkind : top.kind = .directory
    · rw [modify, modify, modify, entries_withEntries _ hkind, withEntries_withEntries]
    · rw [modify, modify, modify, withEntries_of_ne _ hkind, withEntries_of_ne _ hkind, withEntries_of_ne _ hkind]
  | cons name q ih =>
    cases hn : find? name top.entries with
    | none => rw [modify_cons_none hn, modify_cons_none hn, modify_cons_none hn]
    | some m =>
      have hfind : find? name (top.modify g (name :: q)).entries = some (m.modify g q) := by
        rw [find?_entries_modify_cons hn, if_pos rfl]
      rw [modify_cons_some hfind, modify_cons_some hn, modify_cons_some hn,
        entries_withEntries _ (kind_of_find? hn), withEntries_withEntries, set_set, ih]

/-- A change one name further down is a change of the entry that leads there. -/
theorem modify_concat (q : Place) (name : FileName) :
    top.modify f (q ++ [name]) = top.modify
      (fun es => ((find? name es).map fun m => set name (m.withEntries (f m.entries)) es).getD es) q := by
  induction q generalizing top with
  | nil =>
    rw [List.nil_append, modify]
    cases hn : find? name top.entries with
    | none => rw [modify_cons_none hn, Option.map_none, Option.getD_none, withEntries_entries]
    | some m => rw [modify_cons_some hn, Option.map_some, Option.getD_some]; rfl
  | cons key q ih =>
    rw [List.cons_append]
    cases hn : find? key top.entries with
    | none => rw [modify_cons_none hn, modify_cons_none hn]
    | some m => rw [modify_cons_some hn, modify_cons_some hn, ih]

theorem modify_congr (h : top.get? q = some n) (hfg : f n.entries = g n.entries) :
    top.modify f q = top.modify g q := by
  induction q generalizing top with
  | nil =>
    obtain rfl := Option.some.inj h
    rw [modify, modify, hfg]
  | cons name q ih =>
    rw [get?] at h
    obtain ⟨m, hm, hq⟩ := Option.bind_eq_some_iff.1 h
    rw [modify_cons_some hm, modify_cons_some hm, ih hq]

theorem modify_self (top : Node) (q : Place) : top.modify (fun es => es) q = top := by
  induction q generalizing top with
  | nil => exact withEntries_entries top
  | cons name q ih =>
    cases hn : find? name top.entries with
    | none => rw [modify_cons_none hn]
    | some m => rw [modify_cons_some hn, ih, set_of_find? hn, withEntries_entries]

/-- **A change of entries is confined to what is below them.** At a place that is not below the directory
the kind of what is found stays. -/
theorem kindAt?_modify {p : Place} (hp : ∀ name rest, p ≠ q ++ name :: rest) :
    (top.modify f q).kindAt? p = top.kindAt? p := by
  unfold kindAt?
  induction q generalizing top p with
  | nil =>
    cases p with
    | nil => exact congrArg some kind_modify
    | cons name rest => exact absurd rfl (hp name rest)
  | cons name q ih =>
    cases hn : find? name top.entries with
    | none => rw [modify_cons_none hn]
    | some m =>
      cases p with
      | nil => exact congrArg some kind_modify
      | cons key p =>
        rw [get?, get?, find?_entries_modify_cons hn]
        -- the place leads the same way as the directory, or parts from it here
        by_cases hkey : name = key
        · subst hkey
          rw [if_pos rfl, hn]
          exact ih fun name' rest h => hp name' rest (by rw [h]; rfl)
        · rw [if_neg hkey]

theorem assign_concat (q : Place) (name : FileName) (cell : Option Node) :
    top.assign (q ++ [name]) cell = top.modify (Assoc.assign name cell) q := by
  unfold assign
  rw [List.getLast?_concat, List.dropLast_concat]

end Node

namespace FileTree

/-! ## Following paths -/

variable {top top' : Node}

theorem walk_append (start : Place) (names more : List Content) :
    walk top start (names ++ more) = (walk top start names).bind fun place => walk top place more := by
  induction names generalizing start with
  | nil => rfl
  | cons name names ih =>
    rw [List.cons_append, walk, walk]
    split
    · rfl
    · split
      · exact ih _
      · split
        · rfl
        · exact ih _

/-- **Paths stay good where directories stay.** -/
theorem walk_mono (hdir : ∀ p, top.kindAt? p = some .directory → top'.kindAt? p = some .directory)
    {start place : Place} {names : List Content} (h : walk top start names = .ok place) :
    walk top' start names = .ok place := by
  induction names generalizing start with
  | nil => exact h
  | cons name names ih =>
    rw [walk] at h
    split at h
    · cases h
    · rename_i henter
      have henter' : top'.enter start = .ok () := Kind.enter_eq_ok.2 (hdir _ (Kind.enter_eq_ok.1 henter))
      rw [walk, henter']
      split at h
      · rename_i hup; simp only [if_pos hup]; exact ih h
      · split at h
        · cases h
        · rename_i hup hlen; simp only [if_neg hup, if_neg hlen]; exact ih h

/-- Where a path of at least one name leads: up from a directory, or to an entry of one. -/
theorem walk_concat {start place : Place} {names : List Content} {name : Content}
    (h : walk top start (names ++ [name]) = .ok place) :
    ∃ q, walk top start names = .ok q ∧ top.kindAt? q = some .directory ∧
      (name = Content.ofText ".." ∧ place = q.dropLast ∨
        name ≠ Content.ofText ".." ∧ name.size ≤ maxName ∧ place = q ++ [.ofContent name]) := by
  rw [walk_append] at h
  cases hq : walk top start names with
  | error fault => rw [hq] at h; cases h
  | ok q =>
    rw [hq] at h
    change walk top q [name] = .ok place at h
    rw [walk] at h
    split at h
    · cases h
    · rename_i henter
      refine ⟨q, rfl, Kind.enter_eq_ok.1 henter, ?_⟩
      split at h
      · rename_i hup; exact Or.inl ⟨hup, (Except.ok.inj h).symm⟩
      · split at h
        · cases h
        · rename_i hup hlen; exact Or.inr ⟨hup, Nat.le_of_not_lt hlen, (Except.ok.inj h).symm⟩

/-- Following the path of an entry of a directory. -/
theorem locate_child {t : FileTree} {p : FilePath} {place : Place} (h : t.locate p = .ok place) (key : Content) :
    t.locate (p.child key) =
      if maxPath < (p.child key).content.size then .error .nameTooLong else walk t.top place [key] := by
  have hnames : (p.child key).names = p.names ++ [key] := rfl
  have hstart : (p.child key).start = p.start := rfl
  unfold locate at h ⊢
  split at h
  · cases h
  · rw [hnames, hstart, walk_append, h]
    rfl

/-- The places that names lead through, whatever is there. -/
def trail (place : Place) : List Content → List Place
  | [] => [place]
  | name :: rest =>
    place :: trail (if name = Content.ofText ".." then place.dropLast else place ++ [.ofContent name]) rest

theorem start_mem_trail (start : Place) (names : List Content) : start ∈ trail start names := by
  cases names <;> exact List.mem_cons_self

theorem mem_trail_of_walk {start place : Place} {names : List Content}
    (h : walk top start names = .ok place) : place ∈ trail start names := by
  induction names generalizing start with
  | nil => rw [Except.ok.inj h]; exact List.mem_cons_self
  | cons name names ih =>
    rw [walk] at h
    rw [trail]
    split at h
    · cases h
    · split at h
      · rename_i hup; rw [if_pos hup]; exact List.mem_cons_of_mem _ (ih h)
      · split at h
        · cases h
        · rename_i hup _; rw [if_neg hup]; exact List.mem_cons_of_mem _ (ih h)

/-- **Following a path depends on the kinds of what is found on its way.** -/
theorem walk_congr {start : Place} {names : List Content}
    (h : ∀ p ∈ trail start names, top.kindAt? p = top'.kindAt? p) :
    walk top start names = walk top' start names := by
  induction names generalizing start with
  | nil => rfl
  | cons name names ih =>
    have henter : top.enter start = top'.enter start := by
      unfold Node.enter
      rw [h start (start_mem_trail _ _)]
    have hrest := fun p hp => h p (by rw [trail]; exact List.mem_cons_of_mem _ hp)
    rw [walk, walk, henter]
    by_cases hup : name = Content.ofText ".."
    · rw [if_pos hup] at hrest
      simp only [if_pos hup, ih hrest]
    · rw [if_neg hup] at hrest
      simp only [if_neg hup, ih hrest]

end FileTree

end Demotion
