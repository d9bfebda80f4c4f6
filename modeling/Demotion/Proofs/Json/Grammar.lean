import Demotion.Json.Reader

/-!
# The grammar of JSON texts

The rules say what a JSON text is and which value it has, without a reader. They relate a text, a
value at its head and what is left of the text after it.

A `Style` leaves three things of the grammar open: which characters are white space, what a character
of a string stands for, and what else may stand after the colon of a member. `Style.plain` is JSON as
such, in which `NaN`, `Infinity` and `-Infinity` count as numbers.

* `Style.Literal`: a string, whose escapes may write a character as two halves of a surrogate pair.
* `Style.Value`: a value in which containers stand at most a given number deep.
* `Style.Text`: a whole text, with the value that it has.
-/

namespace Demotion.Json

/-- A way of writing JSON texts. -/
structure Style where
  /-- White space between the parts of a text. -/
  isSpace : Char → Bool
  /-- The character that an unescaped character of a string stands for. -/
  shown : Char → Char
  /-- What may stand right after the colon of a member in place of a value, and the value it has. -/
  bare : List Char → Json → List Char → Prop

/-- JSON as such. -/
def Style.plain : Style where
  isSpace := Json.isSpace
  shown c := c
  bare _ _ _ := False

/-! ## Strings -/

/-- The letters of one-letter escapes, each with the character it stands for. -/
def escapes : List (Char × Char) :=
  [('"', '"'), ('\\', '\\'), ('/', '/'), ('b', '\x08'), ('f', '\x0c'), ('n', '\n'), ('r', '\r'),
    ('t', '\t')]

/-- A hexadecimal digit and its value. -/
def IsHexDigit (c : Char) (n : Nat) : Prop :=
  "0123456789abcdef".toList[n]? = some c ∨ "0123456789ABCDEF".toList[n]? = some c

/-- Four hexadecimal digits and the number they write. -/
inductive IsHex : Char → Char → Char → Char → Nat → Prop where
  | mk {a b c d : Char} {i j k l : Nat} (ha : IsHexDigit a i) (hb : IsHexDigit b j)
      (hc : IsHexDigit c k) (hd : IsHexDigit d l) :
      IsHex a b c d (i * 0x1000 + j * 0x100 + k * 0x10 + l)

/-- The numbers of first halves of surrogate pairs. -/
def IsHighHalf (n : Nat) : Prop := 0xD800 ≤ n ∧ n < 0xDC00

/-- The numbers of second halves of surrogate pairs. -/
def IsLowHalf (n : Nat) : Prop := 0xDC00 ≤ n ∧ n < 0xE000

/-- A string from after its opening quote on, its content, and what follows its closing quote. A first
half and a second half that are escaped one after the other are one character. -/
inductive Style.Literal (S : Style) : List Char → Content → List Char → Prop where
  | close {rest : List Char} : Literal S ('"' :: rest) [] rest
  | char {c : Char} {s rest : List Char} {p : Content} (hq : c ≠ '"') (hb : c ≠ '\\')
      (hc : ' ' ≤ c) (h : Literal S s p rest) : Literal S (c :: s) (.char (S.shown c) :: p) rest
  | escape {e c : Char} {s rest : List Char} {p : Content} (he : (e, c) ∈ escapes)
      (h : Literal S s p rest) : Literal S ('\\' :: e :: s) (.char c :: p) rest
  | code {a b c d : Char} {n : Nat} {s rest : List Char} {p : Content} (hn : IsHex a b c d n)
      (hh : ¬IsHighHalf n) (hl : ¬IsLowHalf n) (h : Literal S s p rest) :
      Literal S ('\\' :: 'u' :: a :: b :: c :: d :: s) (.char (Char.ofNat n) :: p) rest
  | pair {a b c d a' b' c' d' : Char} {m n : Nat} {s rest : List Char} {p : Content}
      (hm : IsHex a b c d m) (hh : IsHighHalf m) (hn : IsHex a' b' c' d' n) (hl : IsLowHalf n)
      (h : Literal S s p rest) :
      Literal S ('\\' :: 'u' :: a :: b :: c :: d :: '\\' :: 'u' :: a' :: b' :: c' :: d' :: s)
        (.char (Char.ofNat (0x10000 + (m - 0xD800) * 0x400 + (n - 0xDC00))) :: p) rest
  | half {a b c d : Char} {n : Nat} {s rest : List Char} {p : Content} (hn : IsHex a b c d n)
      (hs : IsHighHalf n ∨ IsLowHalf n)
      (halone : IsHighHalf n → ∀ m, p.head? = some (.half m) → ¬IsLowHalf m)
      (h : Literal S s p rest) :
      Literal S ('\\' :: 'u' :: a :: b :: c :: d :: s) (.half n :: p) rest

/-! ## Numbers -/

/-- At least one digit, and nothing else. -/
def IsDigits (w : List Char) : Prop := w ≠ [] ∧ ∀ c ∈ w, c.isDigit = true

/-- The whole part of a number: a zero, or digits of which the first is none. -/
def IsWhole (w : List Char) : Prop := w = ['0'] ∨ IsDigits w ∧ w.head? ≠ some '0'

/-- The fraction of a number, which may be absent. -/
def IsFraction (w : List Char) : Prop := w = [] ∨ ∃ digits, w = '.' :: digits ∧ IsDigits digits

/-- The exponent of a number, which may be absent. -/
def IsExponent (w : List Char) : Prop :=
  w = [] ∨ ∃ e sign digits, w = e :: sign ++ digits ∧ (e = 'e' ∨ e = 'E') ∧
    (sign = [] ∨ sign = ['+'] ∨ sign = ['-']) ∧ IsDigits digits

/-- A number as it is spelled. -/
inductive IsNumber : List Char → Prop where
  | mk {sign whole fraction exponent : List Char} (hs : sign = [] ∨ sign = ['-'])
      (hw : IsWhole whole) (hf : IsFraction fraction) (he : IsExponent exponent) :
      IsNumber (sign ++ whole ++ fraction ++ exponent)

/-! ## Values -/

namespace Style

/-- White space, possibly none. -/
inductive Blanks (S : Style) : List Char → List Char → Prop where
  | none {s : List Char} : Blanks S s s
  | more {c : Char} {s rest : List Char} (hc : S.isSpace c = true) (h : Blanks S s rest) :
      Blanks S (c :: s) rest

/-- A value that is no container. A number has the value of its spelling. -/
inductive Scalar (S : Style) : List Char → Json → List Char → Prop where
  | null {rest : List Char} : Scalar S ("null".toList ++ rest) .null rest
  | true {rest : List Char} : Scalar S ("true".toList ++ rest) (.bool true) rest
  | false {rest : List Char} : Scalar S ("false".toList ++ rest) (.bool false) rest
  | constant {w : String} {rest : List Char} (hw : w ∈ ["NaN", "Infinity", "-Infinity"]) :
      Scalar S (w.toList ++ rest) (.number w) rest
  | number {w rest : List Char} (hw : IsNumber w) :
      Scalar S (w ++ rest) (.number (String.ofList w)) rest
  | string {s rest : List Char} {p : Content} (h : S.Literal s p rest) :
      Scalar S ('"' :: s) (.string p) rest

/-- One item or more, with commas between them, and the character that closes them. -/
inductive Items (S : Style) {α : Type} (item : List Char → α → List Char → Prop) (close : Char) :
    List Char → List α → List Char → Prop where
  | last {s s₁ s₂ rest : List Char} {a : α} (h₁ : S.Blanks s s₁) (ha : item s₁ a s₂)
      (h₂ : S.Blanks s₂ (close :: rest)) : Items S item close s [a] rest
  | more {s s₁ s₂ s₃ rest : List Char} {a : α} {as : List α} (h₁ : S.Blanks s s₁)
      (ha : item s₁ a s₂) (h₂ : S.Blanks s₂ (',' :: s₃)) (h : Items S item close s₃ as rest) :
      Items S item close s (a :: as) rest

/-- A container from after its opening bracket on. -/
inductive Container (S : Style) {α : Type} (item : List Char → α → List Char → Prop)
    (close : Char) : List Char → List α → List Char → Prop where
  | empty {s rest : List Char} (h : S.Blanks s (close :: rest)) : Container S item close s [] rest
  | items {s rest : List Char} {as : List α} (h : S.Items item close s as rest) :
      Container S item close s as rest

/-- A member of an object: a name, a colon, and a value or what the style allows in its place. -/
inductive Member (S : Style) (value : List Char → Json → List Char → Prop) :
    List Char → Content × Json → List Char → Prop where
  | value {s s₁ s₂ s₃ rest : List Char} {name : Content} {v : Json} (hn : S.Literal s name s₁)
      (hc : S.Blanks s₁ (':' :: s₂)) (hb : S.Blanks s₂ s₃) (hv : value s₃ v rest) :
      Member S value ('"' :: s) (name, v) rest
  | bare {s s₁ s₂ rest : List Char} {name : Content} {v : Json} (hn : S.Literal s name s₁)
      (hc : S.Blanks s₁ (':' :: s₂)) (hv : S.bare s₂ v rest) :
      Member S value ('"' :: s) (name, v) rest

/-- A value whose containers have the values of `inner` in them. -/
inductive Nested (S : Style) (inner : List Char → Json → List Char → Prop) :
    List Char → Json → List Char → Prop where
  | scalar {s rest : List Char} {v : Json} (h : S.Scalar s v rest) : Nested S inner s v rest
  | array {s rest : List Char} {items : List Json} (h : S.Container inner ']' s items rest) :
      Nested S inner ('[' :: s) (.array items) rest
  | object {s rest : List Char} {members : List (Content × Json)}
      (h : S.Container (S.Member inner) '\x7d' s members rest) :
      Nested S inner ('\x7b' :: s) (.object members) rest

/-- A value in which containers stand at most `depth` deep. -/
def Value (S : Style) : (depth : Nat) → List Char → Json → List Char → Prop
  | 0 => S.Scalar
  | depth + 1 => S.Nested (S.Value depth)

/-- A text that is one value with white space around it, in which containers stand at most `depth` deep. -/
def Text (S : Style) (depth : Nat) (s : List Char) (v : Json) : Prop :=
  ∃ s₁ s₂, S.Blanks s s₁ ∧ S.Value depth s₁ v s₂ ∧ S.Blanks s₂ []

end Style

end Demotion.Json
