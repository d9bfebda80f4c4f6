import Demotion.Text.Blank
import Demotion.Text.Digit
import Demotion.Text.Quoted

/-!
# Integers as text

`Integer.read` reads an integer: white space around it, a sign, digits of any script, single
underscores between digits. An integer has at most `maxDigits` digits, leading zeros counted, both
when it is read and when it is written.
-/

namespace Demotion

/-- Why a text is not read as a number, or a number not written as a text. -/
inductive NumberError where
  /-- The text is no integer. -/
  | notInteger (text : String)
  /-- The text is no real number. -/
  | notReal (text : String)
  /-- The text has more digits than an integer may have. -/
  | longText (digits : Nat)
  /-- The integer has more digits than a text of it may have. -/
  | longInteger
  deriving DecidableEq, Repr

namespace Integer

/-- The most digits an integer may have as a text. -/
def maxDigits : Nat := 4300

/-- White space around a number. The separators of the control range are not among it. -/
def isMargin (c : Char) : Bool :=
  Text.isBlank c && !(28 ≤ c.toNat && c.toNat ≤ 31)

/-- Digits, and single underscores each between two of them. -/
def isGrouped : List Char → Bool
  | [] => false
  | [c] => Text.isDigit c
  | c :: d :: rest =>
    Text.isDigit c && (if d = '_' then isGrouped rest else isGrouped (d :: rest))

/-- The number that the digits in a text write; characters that are no digits are passed over. -/
def ofDigits (s : List Char) : Nat :=
  (s.filterMap Text.digitValue?).foldl (fun n d => 10 * n + d) 0

/-- The sign at the head of a text, and what follows it. -/
def splitSign : List Char → Bool × List Char
  | '-' :: rest => (true, rest)
  | '+' :: rest => (false, rest)
  | s => (false, s)

/-- An integer from its sign and size. -/
def ofSign (negative : Bool) (n : Nat) : Int :=
  if negative then -(n : Int) else n

/-- Reads an integer. Of the two things that can be wrong with a text that starts like an integer,
too many digits is found first, and a text that does not end there second. -/
def read (text : String) : Except NumberError Int :=
  let (negative, s) := splitSign (text.toList.dropWhile isMargin)
  let run := s.takeWhile fun c => Text.isDigit c || c = '_'
  let rest := s.dropWhile fun c => Text.isDigit c || c = '_'
  if !isGrouped run then .error (.notInteger text)
  else
    let count := run.countP Text.isDigit
    if maxDigits < count then .error (.longText count)
    else if rest.all isMargin then .ok (ofSign negative (ofDigits run))
    else .error (.notInteger text)

/-- An integer in decimal, if it does not have too many digits. -/
def write? (n : Int) : Option String :=
  if maxDigits < (Nat.toDigits 10 n.natAbs).length then none else some (toString n)

end Integer

/-- How many characters of a quoted text a message about integers shows. -/
def NumberError.shown : Nat := 200

/-- That there are too many digits, in words, with what is known of them. -/
def NumberError.limitMessage (detail : String) : String :=
  s!"Exceeds the limit ({Integer.maxDigits} digits) for integer string conversion" ++ detail ++
    "; use sys.set_int_max_str_digits() to increase the limit"

/-- The error in words. -/
def NumberError.message : NumberError → String
  | .notInteger text =>
    let quoted := String.ofList ((Text.quote text).take shown)
    s!"invalid literal for int() with base 10: {quoted}"
  | .notReal text =>
    let quoted := Text.quoted text
    s!"could not convert string to float: {quoted}"
  | .longText digits => limitMessage s!": value has {digits} digits"
  | .longInteger => limitMessage ""

end Demotion
