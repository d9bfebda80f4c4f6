import Mathlib.Data.List.Nodup
import Mathlib.Tactic
import Demotion.Assoc

/-!
# Laws of association lists

* `find?_set`, `find?_without`: setting or leaving out a key changes the value of this key only.
* `set_of_find?`, `set_set`, `without_set`: setting a key to the value it has does nothing, and only the last
  of what is done to a key counts.
* `set_append`, `without_append`: a key that is new to the front of a list is set and left out behind it.
* `find?_assign`, `assign_append`: the same of keys that are given a value or none.
* `mem_iff_find?`: where each key stands once, the entries are the values of the keys.
* `find?_foldl_set`: of values that are set one after the other, each for a key of its own, all count.
-/

namespace Demotion.Assoc

variable {α β : Type} [DecidableEq α] {name key : α} {v w : β} {es more : List (α × β)}

/-! ## Values -/

theorem find?_cons (key : α) (e : α × β) (es : List (α × β)) :
    find? key (e :: es) = if e.1 = key then some e.2 else find? key es := rfl

theorem find?_append : find? name (es ++ more) = (find? name es).or (find? name more) := by
  induction es with
  | nil => rfl
  | cons e es ih =>
    rw [List.cons_append, find?_cons, find?_cons, ih]
    split <;> rfl

theorem find?_set (name : α) (v : β) (es : List (α × β)) (key : α) :
    find? key (set name v es) = if name = key then some v else find? key es := by
  induction es with
  | nil => rfl
  | cons e es ih =>
    rw [set]
    by_cases he : e.1 = name
    · rw [if_pos he, find?_cons, find?_cons, he]
      split <;> rfl
    · rw [if_neg he, find?_cons, ih, find?_cons]
      by_cases hkey : name = key
      · rw [if_neg (hkey ▸ he), if_pos hkey, if_pos hkey]
      · rw [if_neg hkey, if_neg hkey]

theorem find?_without (name : α) (es : List (α × β)) (key : α) :
    find? key (without name es) = if name = key then none else find? key es := by
  induction es with
  | nil => rw [without, List.filter_nil]; split <;> rfl
  | cons e es ih =>
    unfold without at ih ⊢
    by_cases he : e.1 = name
    · rw [List.filter_cons_of_neg (by simpa using he), ih, find?_cons, he]
      split <;> rfl
    · rw [List.filter_cons_of_pos (by simpa using he), find?_cons, find?_cons, ih]
      by_cases hkey : name = key
      · rw [if_neg (hkey ▸ he), if_pos hkey, if_pos hkey]
      · rw [if_neg hkey, if_neg hkey]

/-! ## Setting and leaving out -/

theorem set_of_find? (h : find? name es = some v) : set name v es = es := by
  induction es with
  | nil => cases h
  | cons e es ih =>
    rw [find?_cons] at h
    rw [set]
    split at h
    · rename_i he; rw [if_pos he, ← Option.some.inj h, ← he]
    · rename_i he; rw [if_neg he, ih h]

theorem set_set : set name v (set name w es) = set name v es := by
  induction es with
  | nil => exact if_pos rfl
  | cons e es ih =>
    by_cases he : e.1 = name
    · rw [set, if_pos he, set, if_pos rfl, set, if_pos he]
    · rw [set, if_neg he, set, if_neg he, set, if_neg he, ih]

/-- A key that is new to a list goes behind its entries. -/
theorem set_append (h : find? name es = none) : set name v (es ++ more) = es ++ set name v more := by
  induction es with
  | nil => rfl
  | cons e es ih =>
    rw [find?_cons] at h
    split at h
    · cases h
    · rename_i he; rw [List.cons_append, set, if_neg he, ih h, List.cons_append]

theorem without_of_find? (h : find? name es = none) : without name es = es := by
  induction es with
  | nil => rfl
  | cons e es ih =>
    rw [find?_cons] at h
    unfold without at ih ⊢
    split at h
    · cases h
    · rename_i he; rw [List.filter_cons_of_pos (by simpa using he), ih h]

theorem without_set : without name (set name v es) = without name es := by
  induction es with
  | nil => simp [set, without]
  | cons e es ih =>
    unfold without at ih ⊢
    rw [set]
    split
    · rename_i he
      rw [List.filter_cons_of_neg (by simp), List.filter_cons_of_neg (by simpa using he)]
    · rename_i he
      rw [List.filter_cons_of_pos (by simpa using he), List.filter_cons_of_pos (by simpa using he), ih]

theorem without_append (h : find? name es = none) : without name (es ++ more) = es ++ without name more := by
  have hes := without_of_find? h
  unfold without at hes ⊢
  rw [List.filter_append, hes]

/-! ## A value or none -/

theorem find?_assign (name : α) (v? : Option β) (es : List (α × β)) (key : α) :
    find? key (assign name v? es) = if name = key then v? else find? key es := by
  cases v? with
  | none => exact find?_without name es key
  | some v => exact find?_set name v es key

theorem find?_assign_self (v? : Option β) : find? name (assign name v? es) = v? := by
  rw [find?_assign, if_pos rfl]

theorem find?_assign_of_ne (h : key ≠ name) (v? : Option β) : find? key (assign name v? es) = find? key es := by
  rw [find?_assign, if_neg h.symm]

theorem assign_of_find? {v? : Option β} (h : find? name es = v?) : assign name v? es = es := by
  cases v? with
  | none => exact without_of_find? h
  | some v => exact set_of_find? h

theorem assign_append (h : find? name es = none) (v? : Option β) :
    assign name v? (es ++ more) = es ++ assign name v? more := by
  cases v? with
  | none => exact without_append h
  | some v => exact set_append h

theorem assign_set (v? : Option β) (w : β) : assign name v? (set name w es) = assign name v? es := by
  cases v? with
  | none => exact without_set
  | some v => exact set_set

theorem find?_singleton (name : α) (v : β) : find? name [(name, v)] = some v :=
  if_pos rfl

theorem assign_singleton (v? : Option β) (w : β) :
    assign name v? [(name, w)] = (v?.map fun v => (name, v)).toList := by
  cases v? with
  | none => simp [assign, without]
  | some v => exact if_pos rfl

theorem assign_assign_nil (v? w? : Option β) : assign name v? (assign name w? []) = assign name v? [] := by
  cases w? with
  | none => rfl
  | some w => exact assign_set v? w

/-! ## Entries -/

theorem exists_find?_of_mem {e : α × β} (h : e ∈ es) : ∃ v, find? e.1 es = some v := by
  induction es with
  | nil => cases h
  | cons d es ih =>
    rw [find?_cons]
    split
    · exact ⟨_, rfl⟩
    · rename_i hd
      rcases List.mem_cons.1 h with rfl | h
      · exact absurd rfl hd
      · exact ih h

theorem mem_of_find? (h : find? key es = some v) : (key, v) ∈ es := by
  induction es with
  | nil => cases h
  | cons e es ih =>
    rw [find?_cons] at h
    split at h
    · rename_i he
      rw [← he, ← Option.some.inj h]
      exact List.mem_cons_self
    · exact List.mem_cons_of_mem _ (ih h)

theorem find?_of_not_mem (h : key ∉ es.map Prod.fst) : find? key es = none := by
  cases hfind : find? key es with
  | none => rfl
  | some v => exact absurd (List.mem_map_of_mem (mem_of_find? hfind)) h

/-- Where each key stands once, the entries are the values of the keys. -/
theorem mem_iff_find? (h : (es.map Prod.fst).Nodup) : (key, v) ∈ es ↔ find? key es = some v := by
  refine ⟨fun hmem => ?_, mem_of_find?⟩
  induction es with
  | nil => cases hmem
  | cons e es ih =>
    rw [List.map_cons, List.nodup_cons] at h
    rw [find?_cons]
    rcases List.mem_cons.1 hmem with rfl | hmem
    · rw [if_pos rfl]
    · have hne : e.1 ≠ key := by
        intro hkey
        exact h.1 (hkey ▸ List.mem_map.2 ⟨_, hmem, rfl⟩)
      rw [if_neg hne]
      exact ih h.2 hmem

theorem mem_keys_set (h : key ∈ (set name v es).map Prod.fst) : key = name ∨ key ∈ es.map Prod.fst := by
  induction es with
  | nil => exact Or.inl (List.mem_singleton.1 h)
  | cons e es ih =>
    rw [set] at h
    split at h
    · rcases List.mem_cons.1 h with h | h
      · exact Or.inl h
      · exact Or.inr (List.mem_cons_of_mem _ h)
    · rcases List.mem_cons.1 h with h | h
      · exact Or.inr (h ▸ List.mem_cons_self)
      · exact (ih h).imp_right (List.mem_cons_of_mem _)

/-- Setting a key leaves each key once. -/
theorem nodup_keys_set (h : (es.map Prod.fst).Nodup) (name : α) (v : β) :
    ((set name v es).map Prod.fst).Nodup := by
  induction es with
  | nil => exact List.nodup_singleton _
  | cons e es ih =>
    rw [List.map_cons, List.nodup_cons] at h
    rw [set]
    split
    · rename_i he
      rw [List.map_cons, List.nodup_cons]
      exact ⟨he ▸ h.1, h.2⟩
    · rename_i he
      rw [List.map_cons, List.nodup_cons]
      refine ⟨fun hmem => ?_, ih h.2⟩
      rcases mem_keys_set hmem with hname | hmem
      · exact he hname
      · exact h.1 hmem

theorem set_of_not_mem (h : name ∉ es.map Prod.fst) (v : β) : set name v es = es ++ [(name, v)] := by
  have hset : set name v (es ++ []) = es ++ set name v [] := set_append (find?_of_not_mem h)
  rwa [List.append_nil] at hset

/-- Setting new keys one after the other puts them behind the others. -/
theorem foldl_set (h : ((es ++ more).map Prod.fst).Nodup) :
    more.foldl (fun es e => set e.1 e.2 es) es = es ++ more := by
  induction more generalizing es with
  | nil => rw [List.foldl_nil, List.append_nil]
  | cons e more ih =>
    have hnew : e.1 ∉ es.map Prod.fst := by
      intro hmem
      rw [List.map_append, List.nodup_append] at h
      exact h.2.2 e.1 hmem e.1 List.mem_cons_self rfl
    have hassoc : es ++ e :: more = es ++ [(e.1, e.2)] ++ more := by simp
    rw [hassoc] at h ⊢
    rw [List.foldl_cons, set_of_not_mem hnew, ih h]

/-- Of values that are set one after the other, each for a key of its own, all count, before those of
old. -/
theorem find?_foldl_set {given : List (α × β)} (hnodup : (given.map Prod.fst).Nodup) (es : List (α × β))
    (key : α) :
    find? key (given.foldl (fun es e => set e.1 e.2 es) es) = (find? key given).or (find? key es) := by
  induction given generalizing es with
  | nil => rfl
  | cons e given ih =>
    rw [List.map_cons, List.nodup_cons] at hnodup
    rw [List.foldl_cons, ih hnodup.2, find?_set, find?_cons]
    by_cases hkey : e.1 = key
    · rw [if_pos hkey, if_pos hkey, find?_of_not_mem (hkey ▸ hnodup.1)]
      rfl
    · rw [if_neg hkey, if_neg hkey]

end Demotion.Assoc
