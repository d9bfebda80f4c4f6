import Demotion.Assoc

/-!
# Tables

A table holds one value for each of its keys and keeps the keys in the order in which they were
first set.
-/

namespace Demotion

/-- Keys with their values, each key once, in the order in which they were first set. -/
abbrev Table := List (String × String)

namespace Table

/-- The entries with the given keys first, in the order given, and then the others in theirs. -/
def withFirst (keys : List String) (t : Table) : Table :=
  (keys.filterMap fun key => (Assoc.find? key t).map (key, ·)) ++ t.filter fun entry => !keys.contains entry.1

end Table

end Demotion
