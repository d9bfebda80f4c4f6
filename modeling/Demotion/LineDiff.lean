import Demotion.Text.Split

/-!
# Comparing two sources line by line

Line `n` of one text is compared with line `n` of the other; a line that one of them does not have
counts as empty. Lines end at a line feed, and a carriage return right before it belongs to the end.
-/

namespace Demotion.LineDiff

/-- What happened to a line. -/
inductive Change where
  | demotion
  | other
  deriving DecidableEq, Repr

/-- A line that differs, counted from 1. -/
structure Entry where
  line : Nat
  before : String
  after : String
  change : Change
  deriving DecidableEq, Repr

/-- The name of a change. -/
def Change.name : Change → String
  | .demotion => "demotion"
  | .other => "other"

/-- A line with `float` that became one with `__fp16` was demoted. -/
def classify (before after : List Char) : Change :=
  if Text.occurs "float".toList before && Text.occurs "__fp16".toList after then .demotion
  else .other

/-- A text without the carriage returns right before line feeds. -/
def plainEnds : List Char → List Char
  | [] => []
  | '\r' :: '\n' :: rest => '\n' :: plainEnds rest
  | c :: rest => c :: plainEnds rest

/-- The lines of a source. The text after the last line feed is a line too. -/
def sourceLines (s : List Char) : List (List Char) :=
  Text.splitOn '\n' (plainEnds s)

/-- The lines of two sources side by side, empty ones for those that are missing. -/
def sideBySide : List (List Char) → List (List Char) → List (List Char × List Char)
  | [], [] => []
  | a :: as, [] => (a, []) :: sideBySide as []
  | [], b :: bs => ([], b) :: sideBySide [] bs
  | a :: as, b :: bs => (a, b) :: sideBySide as bs

/-- The entries of lines that stand side by side, of which the first is number `n`. -/
def entriesFrom (n : Nat) : List (List Char × List Char) → List Entry
  | [] => []
  | (a, b) :: rest =>
    if a = b then entriesFrom (n + 1) rest
    else ⟨n, String.ofList a, String.ofList b, classify a b⟩ :: entriesFrom (n + 1) rest

/-- The lines in which two texts differ. -/
def compute (before after : String) : List Entry :=
  entriesFrom 1 (sideBySide (sourceLines before.toList) (sourceLines after.toList))

/-- How many entries are of a kind. -/
def count (change : Change) (entries : List Entry) : Nat :=
  entries.countP (·.change = change)

end Demotion.LineDiff
