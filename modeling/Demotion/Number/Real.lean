import Demotion.Number.Binary64
import Demotion.Number.Integer

/-!
# Reading real numbers

`Binary64.read` reads a decimal number as the nearest double-precision number: white space around
it, a sign, digits of any script with single underscores between them, a point, an exponent; or a
word for infinity or not-a-number in any case.
-/

namespace Demotion.Binary64

/-- A text without the underscores that stand between two digits, if it has no others. `before` says
whether a digit has just been passed. -/
def ungroup? (before : Bool) : List Char → Option (List Char)
  | [] => some []
  | '_' :: rest =>
    match rest with
    | [] => none
    | c :: _ => if before && Text.isDigit c then ungroup? false rest else none
  | c :: rest => (ungroup? (Text.isDigit c) rest).map (c :: ·)

/-- The exponent at the head of a text, which has nothing after it. An empty text counts as 0. -/
def exponent? : List Char → Option Int
  | [] => some 0
  | c :: rest =>
    if c = 'e' || c = 'E' then
      let (negative, digits) := Integer.splitSign rest
      if digits.isEmpty || !digits.all Text.isDigit then none
      else some (Integer.ofSign negative (Integer.ofDigits digits))
    else none

/-- The number that digits, an optional fraction and an optional exponent write. -/
def unsigned? (negative : Bool) (s : List Char) : Option Binary64 :=
  let whole := s.takeWhile Text.isDigit
  let rest := s.dropWhile Text.isDigit
  let (fraction, tail) := match rest with
    | '.' :: r => (r.takeWhile Text.isDigit, r.dropWhile Text.isDigit)
    | r => ([], r)
  if whole.isEmpty && fraction.isEmpty then none
  else (exponent? tail).map fun e =>
    ofDecimal negative (Integer.ofDigits (whole ++ fraction)) (e - fraction.length)

/-- The number that a text without white space and underscores writes. -/
def ofText? (s : List Char) : Option Binary64 :=
  let (negative, body) := Integer.splitSign s
  let word := String.ofList (body.map Char.toLower)
  if word = "inf" || word = "infinity" then some (.infinite negative)
  else if word = "nan" then some .nan
  else unsigned? negative body

/-- Reads a real number. -/
def read (text : String) : Except NumberError Binary64 :=
  match (ungroup? false (Text.trimWhile Integer.isMargin text.toList)).bind ofText? with
  | some x => .ok x
  | none => .error (.notReal text)

end Demotion.Binary64
