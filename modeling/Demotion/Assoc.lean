/-!
# Association lists

A list of keys with values, of which the first entry of a key counts. A key keeps the place at which
it was first set.
-/

namespace Demotion.Assoc

variable {α β : Type} [DecidableEq α]

/-- The value of a key. -/
def find? (key : α) : List (α × β) → Option β
  | [] => none
  | e :: rest => if e.1 = key then some e.2 else find? key rest

/-- Gives a key a value, at its place or at the end. -/
def set (key : α) (value : β) : List (α × β) → List (α × β)
  | [] => [(key, value)]
  | e :: rest => if e.1 = key then (key, value) :: rest else e :: set key value rest

/-- The entries of other keys. -/
def without (key : α) (entries : List (α × β)) : List (α × β) :=
  entries.filter fun e => e.1 ≠ key

/-- Gives a key a value, or takes it away. -/
def assign (key : α) (value? : Option β) (entries : List (α × β)) : List (α × β) :=
  match value? with
  | some value => set key value entries
  | none => without key entries

end Demotion.Assoc
