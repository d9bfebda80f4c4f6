import Demotion.Text.Content
import Demotion.Text.Printable

/-!
# Quoted text

A text shown in a message stands in single quotes, or in double quotes if it has a single quote
and no double one. What is not printable is written as an escape, and so is a lone half.
-/

namespace Demotion

namespace Text

/-- `n` in hexadecimal, filled up with zeros to `width` digits. -/
def hex (width n : Nat) : List Char :=
  let digits := Nat.toDigits 16 n
  List.replicate (width - digits.length) '0' ++ digits

/-- A lone half as it is shown. -/
def halfEscape (n : Nat) : List Char :=
  '\\' :: 'u' :: hex 4 n

/-- A character as it stands between quotes `q`. -/
def quotedChar (q c : Char) : List Char :=
  if c = q || c = '\\' then ['\\', c]
  else if c = '\t' then ['\\', 't']
  else if c = '\n' then ['\\', 'n']
  else if c = '\r' then ['\\', 'r']
  else if isPrintable c then [c]
  else if c.toNat < 0x100 then '\\' :: 'x' :: hex 2 c.toNat
  else if c.toNat < 0x10000 then '\\' :: 'u' :: hex 4 c.toNat
  else '\\' :: 'U' :: hex 8 c.toNat

/-- A code point as it stands between quotes `q`. -/
def quotedPoint (q : Char) : CodePoint → List Char
  | .char c => quotedChar q c
  | .half n => halfEscape n

/-- The quote that stands around a content. -/
def quoteFor (s : Content) : Char :=
  if s.contains (.char '\x27') && !s.contains (.char '"') then '"' else '\x27'

/-- A content in quotes. -/
def quote (s : Content) : List Char :=
  quoteFor s :: s.flatMap (quotedPoint (quoteFor s)) ++ [quoteFor s]

/-- A content in quotes, as it stands in a message. -/
def quoted (s : Content) : String :=
  String.ofList (quote s)

end Text

/-- A content as a text, in which lone halves stand as escapes. -/
def Content.shown (c : Content) : String :=
  String.ofList (c.flatMap fun p =>
    match p with
    | .char c => [c]
    | .half n => Text.halfEscape n)

/-- The reason in words. -/
def Unencodable.message (e : Unencodable) : String :=
  if e.first = e.last then
    let half := String.ofList (Text.halfEscape e.half)
    s!"'utf-8' codec can't encode character '{half}' in position {e.first}: surrogates not allowed"
  else
    s!"'utf-8' codec can't encode characters in position {e.first}-{e.last}: surrogates not allowed"

end Demotion
