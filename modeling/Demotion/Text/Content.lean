/-!
# Contents

The content of a string from outside is a list of code points, because half of a surrogate pair can
stand in it on its own. A content without lone halves is a text (`CodePoint.text?`). An encoding may
take some of the halves that stand alone; `Content.refused?` finds the first that it does not take.
-/

namespace Demotion

/-- A code point of a string: a character, or half of a surrogate pair that stands alone. -/
inductive CodePoint where
  | char (c : Char)
  | half (n : Nat)
  deriving DecidableEq, Repr

/-- The content of a string. -/
abbrev Content := List CodePoint

namespace CodePoint

/-- The text of a content without lone halves. -/
def text? : Content → Option (List Char)
  | [] => some []
  | .char c :: rest => (text? rest).map (c :: ·)
  | .half _ :: _ => none

/-- Whether a code point is a lone half. -/
def isHalf : CodePoint → Bool
  | .char _ => false
  | .half _ => true

/-- The bytes that stand for a code point in the name of a file. A half stands for its last byte. -/
def bytes : CodePoint → List UInt8
  | .char c => String.utf8EncodeChar c
  | .half n => [UInt8.ofNat n]

/-- The number of these bytes. -/
def size : CodePoint → Nat
  | .char c => c.utf8Size
  | .half _ => 1

end CodePoint

/-- Why a content cannot be encoded: the first half that is not taken, and the positions of it and of
the last of the halves that it stands among. -/
structure Unencodable where
  half : Nat
  first : Nat
  last : Nat
  deriving DecidableEq, Repr

namespace Content

/-- The content of a text. -/
def ofText (s : String) : Content :=
  s.toList.map .char

instance : Coe String Content := ⟨ofText⟩

/-- The number of bytes that stand for a content in the name of a file. -/
def size : Content → Nat
  | [] => 0
  | point :: rest => point.size + size rest

/-- Whether a content has the null character, which no path may have. -/
def hasNull (c : Content) : Bool :=
  c.contains (.char '\x00')

/-- Whether a half that stands alone is taken for a byte in the name of a file. -/
def isByte (half : Nat) : Bool :=
  0xDC80 ≤ half && half ≤ 0xDCFF

/-- The first half that is not taken, in a content that starts at a position. -/
def refused? (takes : Nat → Bool) (position : Nat) : Content → Option Unencodable
  | [] => none
  | .char _ :: rest => refused? takes (position + 1) rest
  | .half n :: rest =>
    if takes n then refused? takes (position + 1) rest
    else some ⟨n, position, position + (rest.takeWhile CodePoint.isHalf).length⟩

end Content

end Demotion
