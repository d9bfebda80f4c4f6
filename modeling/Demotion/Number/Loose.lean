import Demotion.Number.Real
import Demotion.Text.Split

/-!
# Numbers that are loosely written

A text may give a number more loosely than a number is spelled. `Integer.readLoose` takes an integer
as it is spelled (`Integer.ofSpelling`); of any other text it takes off what does not change the
number (`Integer.tidy?`) and tries again. `Binary64.readLoose` does the same for real numbers. All
digits are plain.
-/

namespace Demotion

namespace Text

/-- Whether two underscores stand side by side in a text. -/
def hasDoubleUnderscore (s : List Char) : Bool :=
  occurs ['_', '_'] s

/-- A text without its underscores, if it has some, none of them at an end or beside another. -/
def withoutUnderscores? (s : List Char) : Option (List Char) :=
  if s.head? = some '_' || s.getLast? = some '_' || !s.contains '_' || hasDoubleUnderscore s then
    none
  else some (s.filter (· ≠ '_'))

end Text

/-- Why a text gives no integer. -/
inductive LooseError where
  | tooLong
  | unreadable
  deriving DecidableEq, Repr

namespace Integer

/-- The digits from 1 to 9. -/
def isLeading (c : Char) : Bool :=
  c.isDigit && c ≠ '0'

/-- The integer that a text spells: digits without zeros in front, after a minus if it is negative.
That there are too many digits is found before what follows them is looked at. -/
def ofSpelling (s : List Char) : Except LooseError Int :=
  let negative := s.head? = some '-'
  let digits := if negative then s.drop 1 else s
  let run := digits.takeWhile Char.isDigit
  if digits = ['0'] then .ok 0
  else if !digits.head?.any isLeading then .error .unreadable
  else if maxDigits < run.length then .error .tooLong
  else if run.length = digits.length then .ok (ofSign negative (ofDigits run))
  else .error .unreadable

/-- What is left of a text after zeros and underscores, of which the last was `last`: the rest from
a digit or a minus on, or from `last` on where a point or nothing follows. -/
def afterZeros? (last : Char) : List Char → Option (List Char)
  | [] => some [last]
  | c :: rest =>
    if c = '0' || c = '_' then afterZeros? c rest
    else if isLeading c || c = '-' then some (c :: rest)
    else if c = '.' then some (last :: c :: rest)
    else none

/-- A text without the zeros in front, if it starts like an integer. -/
def dropZeros? : List Char → Option (List Char)
  | [] => none
  | c :: rest =>
    if c = '0' then afterZeros? c rest
    else if isLeading c || c = '-' then some (c :: rest)
    else none

/-- A text without its point, if nothing but zeros stand behind it. -/
def dropPoint (s : List Char) : List Char :=
  let whole := s.takeWhile (· ≠ '.')
  match s.drop whole.length with
  | '.' :: '0' :: zeros => if zeros.all (· = '0') then whole else s
  | _ => s

/-- A text without zeros in front, without a point that only zeros stand behind, and without
underscores. -/
def tidyUnsigned? (s : List Char) : Option (List Char) :=
  (dropZeros? s).map fun s => (Text.withoutUnderscores? (dropPoint s)).getD (dropPoint s)

/-- A text without white space around it and without a plus, tidied behind its sign. -/
def tidy? (s : List Char) : Option (List Char) :=
  match Text.trimWhile isMargin s with
  | '-' :: rest => (tidyUnsigned? rest).map ('-' :: ·)
  | '+' :: rest => tidyUnsigned? rest
  | s => tidyUnsigned? s

/-- The integer that a text gives. Only of an integer as it is spelled is it said that it is too
long. -/
def readLoose (s : List Char) : Except LooseError Int :=
  match ofSpelling s with
  | .error .unreadable =>
    match (tidy? s).map ofSpelling with
    | some (.ok n) => .ok n
    | _ => .error .unreadable
  | result => result

end Integer

namespace Binary64

/-- A character that may stand in the spelling of a real number. -/
def isSpelling (c : Char) : Bool :=
  c.toNat < 0x80 && c ≠ '_' && !Text.isBlank c

/-- The real number that a text spells. -/
def ofSpelling? (s : List Char) : Option Binary64 :=
  if s.all isSpelling then ofText? s else none

/-- The real number that a text gives. There may be white space around it or underscores in it, but
not both. -/
def readLoose? (s : List Char) : Option Binary64 :=
  (ofSpelling? (Text.trimWhile Integer.isMargin s)).or
    ((Text.withoutUnderscores? s).bind ofSpelling?)

end Binary64

end Demotion
