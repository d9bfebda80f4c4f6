import Demotion.Text.Ranges

/-!
# White space

`isBlank` holds of the white space of all scripts, the separators of the control range included.
`trim` takes it off both ends of a text.
-/

namespace Demotion.Text

/-- White space, and the four separators that end a file, group, record or unit. -/
def blankRanges : List (Nat × Nat) :=
  [(9, 13), (28, 32), (133, 133), (160, 160), (5760, 5760), (8192, 8202), (8232, 8233),
    (8239, 8239), (8287, 8287), (12288, 12288)]

/-- Whether a character is white space. -/
def isBlank (c : Char) : Bool :=
  inRanges blankRanges c

/-- Whether a text has nothing but white space. -/
def isBlankText (s : List Char) : Bool :=
  s.all isBlank

/-- A text without the characters at its end that satisfy `p`. -/
def dropEndWhile (p : Char → Bool) : List Char → List Char
  | [] => []
  | c :: rest =>
    match dropEndWhile p rest with
    | [] => if p c then [] else [c]
    | kept => c :: kept

/-- A text without the characters at either end that satisfy `p`. -/
def trimWhile (p : Char → Bool) (s : List Char) : List Char :=
  dropEndWhile p (s.dropWhile p)

/-- A text without the white space at either end. -/
def trim (s : List Char) : List Char :=
  trimWhile isBlank s

end Demotion.Text
