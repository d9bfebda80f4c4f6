import Demotion.Json.Basic
import Demotion.Text.Split
import Demotion.Number.Integer

/-!
# Reading JSON

`Json.read` reads a JSON text, in which `NaN`, `Infinity` and `-Infinity` count as numbers. A text
that is refused is refused at its first fault, with the place and what was expected there.

The reader works on what is left of the text. `Reader` is the type of its parts: each takes something
off the text, so a loop over parts ends. How deep containers may stand in each other is given.
-/

namespace Demotion.Json

/-- What is wrong at a place of the text. -/
inductive Fault where
  | byteOrderMark
  | value
  | propertyName
  | colon
  | comma
  | extraData
  | unterminated
  | controlCharacter
  | escape
  | hexEscape
  deriving DecidableEq, Repr

/-- A kind of container. -/
inductive Container where
  | array
  | object
  deriving DecidableEq, Repr

/-- Why reading stops. A place is given by what is left of the text there. -/
inductive Failure where
  | at (fault : Fault) (left : List Char)
  | nested (container : Container)
  | longInteger (digits : Nat)
  deriving DecidableEq, Repr

/-- A part of the reader: it gives a value and what is left, which is less than it was given. -/
abbrev Reader (α : Type) :=
  (s : List Char) → Except Failure (α × {rest : List Char // rest.length < s.length})

/-- White space between the parts of a JSON text. -/
def isSpace (c : Char) : Bool :=
  c = ' ' || c = '\t' || c = '\n' || c = '\r'

/-- The text without the white space at its head. -/
def skipSpace (s : List Char) : List Char :=
  s.dropWhile isSpace

theorem skipSpace_length (s : List Char) : (skipSpace s).length ≤ s.length :=
  (List.dropWhile_sublist isSpace).length_le

/-! ## Strings -/

/-- The value of a hexadecimal digit. -/
def hexValue? (c : Char) : Option Nat :=
  if '0' ≤ c && c ≤ '9' then some (c.toNat - 48)
  else if 'a' ≤ c && c ≤ 'f' then some (c.toNat - 87)
  else if 'A' ≤ c && c ≤ 'F' then some (c.toNat - 55)
  else none

/-- The code point of four hexadecimal digits. -/
def codePoint? (a b c d : Char) : Option CodePoint :=
  match hexValue? a, hexValue? b, hexValue? c, hexValue? d with
  | some a, some b, some c, some d =>
    let n := ((a * 16 + b) * 16 + c) * 16 + d
    some (if 0xD800 ≤ n && n < 0xE000 then .half n else .char (Char.ofNat n))
  | _, _, _, _ => none

/-- The character that a one-letter escape stands for. -/
def escaped? : Char → Option Char
  | '"' => some '"'
  | '\\' => some '\\'
  | '/' => some '/'
  | 'b' => some '\x08'
  | 'f' => some '\x0c'
  | 'n' => some '\n'
  | 'r' => some '\r'
  | 't' => some '\t'
  | _ => none

/-- Reads an escape after its backslash. The four digits of a code point cannot end the text.
`string` is what was left at the quote that opened the string. -/
def readEscape (string s : List Char) : Except Failure (CodePoint × List Char) :=
  match s with
  | [] => .error (.at .unterminated string)
  | 'u' :: a :: b :: c :: d :: e :: rest =>
    match codePoint? a b c d with
    | some p => .ok (p, e :: rest)
    | none => .error (.at .hexEscape s)
  | 'u' :: _ => .error (.at .hexEscape s)
  | c :: rest =>
    match escaped? c with
    | some d => .ok (.char d, rest)
    | none => .error (.at .escape ('\\' :: s))

theorem readEscape_length {string s : List Char} {p : CodePoint} {rest : List Char}
    (h : readEscape string s = .ok (p, rest)) : rest.length < s.length := by
  unfold readEscape at h
  split at h
  · simp at h
  · split at h <;> simp at h
    obtain ⟨-, rfl⟩ := h
    simp
  · simp at h
  · split at h <;> simp at h
    obtain ⟨-, rfl⟩ := h
    simp

/-- Reads the rest of a string after its opening quote, escape by escape. -/
def readUnits (string s : List Char) : Except Failure (List CodePoint × List Char) :=
  match s with
  | [] => .error (.at .unterminated string)
  | '"' :: rest => .ok ([], rest)
  | '\\' :: rest =>
    match h : readEscape string rest with
    | .error e => .error e
    | .ok (p, rest') =>
      have := readEscape_length h
      match readUnits string rest' with
      | .error e => .error e
      | .ok (ps, left) => .ok (p :: ps, left)
  | c :: rest =>
    if c.toNat < 0x20 then .error (.at .controlCharacter s)
    else match readUnits string rest with
      | .error e => .error e
      | .ok (ps, left) => .ok (.char c :: ps, left)
  termination_by s.length

theorem readUnits_length {string s : List Char} {ps : List CodePoint} {rest : List Char}
    (h : readUnits string s = .ok (ps, rest)) : rest.length < s.length := by
  fun_induction readUnits string s generalizing ps rest with
  | case1 => simp at h
  | case2 rest' =>
    simp at h
    obtain ⟨-, rfl⟩ := h
    simp
  | case3 => simp at h
  | case4 => simp at h
  | case5 rest' p left he hlt ps' left' hr ih =>
    simp at h
    obtain ⟨-, rfl⟩ := h
    have := ih hr
    simp
    omega
  | case6 => simp at h
  | case7 => simp at h
  | case8 c rest' _ _ _ ps' left' hr ih =>
    simp at h
    obtain ⟨-, rfl⟩ := h
    have := ih hr
    simp
    omega

/-- Joins each high half with the low half after it. -/
def joinHalves : List CodePoint → List CodePoint
  | .half a :: .half b :: rest =>
    if a < 0xDC00 && 0xDC00 ≤ b then
      .char (Char.ofNat (0x10000 + (a - 0xD800) * 0x400 + (b - 0xDC00))) :: joinHalves rest
    else .half a :: joinHalves (.half b :: rest)
  | p :: rest => p :: joinHalves rest
  | [] => []

/-- Reads a string after its opening quote. -/
def readString (s : List Char) :
    Except Failure (List CodePoint × {rest : List Char // rest.length < s.length}) :=
  match h : readUnits ('"' :: s) s with
  | .error e => .error e
  | .ok (ps, rest) => .ok (joinHalves ps, ⟨rest, readUnits_length h⟩)

/-! ## Numbers and words -/

/-- The digits at the head of a text, and what follows them. -/
def splitDigits (s : List Char) : List Char × List Char :=
  (s.takeWhile Char.isDigit, s.dropWhile Char.isDigit)

/-- The whole part of a number: a zero, or digits that do not start with one. -/
def splitWhole : List Char → List Char × List Char
  | '0' :: rest => (['0'], rest)
  | s => splitDigits s

/-- A point and digits, or nothing. -/
def splitFraction : List Char → List Char × List Char
  | '.' :: rest =>
    match splitDigits rest with
    | ([], _) => ([], '.' :: rest)
    | (digits, left) => ('.' :: digits, left)
  | s => ([], s)

/-- A sign, or nothing. -/
def splitPlusMinus : List Char → List Char × List Char
  | '+' :: rest => (['+'], rest)
  | '-' :: rest => (['-'], rest)
  | s => ([], s)

/-- The letter of an exponent, a sign or nothing, and digits; or nothing. -/
def splitExponent : List Char → List Char × List Char
  | [] => ([], [])
  | c :: rest =>
    if c = 'e' || c = 'E' then
      let (sign, afterSign) := splitPlusMinus rest
      match splitDigits afterSign with
      | ([], _) => ([], c :: rest)
      | (digits, left) => (c :: sign ++ digits, left)
    else ([], c :: rest)

/-- A number at the head of a text: its spelling and what follows. -/
def splitNumber? (s : List Char) : Option (List Char × List Char) :=
  let (sign, afterSign) := match s with
    | '-' :: rest => (['-'], rest)
    | s => ([], s)
  match splitWhole afterSign with
  | ([], _) => none
  | (whole, afterWhole) =>
    let (fraction, afterFraction) := splitFraction afterWhole
    let (exponent, left) := splitExponent afterFraction
    some (sign ++ whole ++ fraction ++ exponent, left)

/-- The words that are values, each with its value. -/
def words : List (List Char × Json) :=
  [("null".toList, .null), ("true".toList, .bool true), ("false".toList, .bool false),
    ("NaN".toList, .number "NaN"), ("Infinity".toList, .number "Infinity"),
    ("-Infinity".toList, .number "-Infinity")]

/-- A word at the head of a text: its value and its length. -/
def splitWord? (s : List Char) : Option (Json × Nat) :=
  words.findSome? fun w => (Text.after? w.1 s).map fun _ => (w.2, w.1.length)

/-- Whether a spelling is that of an integer. -/
def isIntegerSpelling (spelling : List Char) : Bool :=
  spelling.all fun c => c = '-' || c.isDigit

/-- Whether an integer exceeds a digit limit. -/
def isTooLong (limit : Option Nat) (spelling : List Char) : Bool :=
  isIntegerSpelling spelling && limit.any (· < spelling.countP Char.isDigit)

/-- Reads a number or a word. With a digit limit, an integer that exceeds it is refused. -/
def readPlain (limit : Option Nat) : Reader Json
  | [] => .error (.at .value [])
  | c :: cs =>
    match splitWord? (c :: cs), splitNumber? (c :: cs) with
    | some (v, size), _ => .ok (v, ⟨cs.drop (size - 1), by
        simp only [List.length_drop, List.length_cons]; omega⟩)
    | none, some (spelling, _) =>
      if isTooLong limit spelling then .error (.longInteger (spelling.countP Char.isDigit))
      else .ok (.number (String.ofList spelling), ⟨cs.drop (spelling.length - 1), by
        simp only [List.length_drop, List.length_cons]; omega⟩)
    | none, none => .error (.at .value (c :: cs))

/-! ## Containers -/

/-- Reads items with commas between them up to `close`. At least one item is expected. -/
def readItems {α : Type} (item : Reader α) (close : Char) : Reader (List α) := fun s =>
  match item s with
  | .error e => .error e
  | .ok (a, ⟨rest, hrest⟩) =>
    match hs : skipSpace rest with
    | [] => .error (.at .comma [])
    | c :: tail =>
      have hlen : tail.length + 1 ≤ rest.length := by
        have := skipSpace_length rest
        simpa [hs] using this
      if c = close then .ok ([a], ⟨tail, by omega⟩)
      else if c = ',' then
        have htail := skipSpace_length tail
        match readItems item close (skipSpace tail) with
        | .error e => .error e
        | .ok (as, ⟨left, hleft⟩) => .ok (a :: as, ⟨left, by omega⟩)
      else .error (.at .comma (c :: tail))
  termination_by s => s.length
  decreasing_by omega

/-- Reads the items of a container after its opening bracket. -/
def readContainer {α : Type} (item : Reader α) (close : Char) (s : List Char) :
    Except Failure (List α × {rest : List Char // rest.length ≤ s.length}) :=
  have hlen := skipSpace_length s
  match hs : skipSpace s with
  | [] =>
    match readItems item close [] with
    | .error e => .error e
    | .ok (as, ⟨rest, h⟩) => .ok (as, ⟨rest, by simp at h⟩)
  | c :: tail =>
    if c = close then .ok ([], ⟨tail, by simp [hs] at hlen; omega⟩)
    else match readItems item close (c :: tail) with
      | .error e => .error e
      | .ok (as, ⟨rest, h⟩) => .ok (as, ⟨rest, by simp [hs] at hlen h; omega⟩)

/-- Reads a member of an object: its name, a colon and a value. -/
def readMember (value : Reader Json) : Reader (List CodePoint × Json) := fun s =>
  match s with
  | '"' :: rest =>
    match readString rest with
    | .error e => .error e
    | .ok (name, ⟨afterName, hname⟩) =>
      match hs : skipSpace afterName with
      | ':' :: tail =>
        match value (skipSpace tail) with
        | .error e => .error e
        | .ok (v, ⟨left, hleft⟩) => .ok ((name, v), ⟨left, by
            have h₁ := skipSpace_length afterName
            have h₂ := skipSpace_length tail
            simp [hs] at h₁
            simp
            omega⟩)
      | other => .error (.at .colon other)
  | other => .error (.at .propertyName other)

/-- Reads a value in which containers stand at most `depth` deep. -/
def readValue (limit : Option Nat) : (depth : Nat) → Reader Json
  | depth, s@('"' :: rest) =>
    match readString rest with
    | .error e => .error e
    | .ok (content, ⟨left, h⟩) => .ok (.string content, ⟨left, by simp; omega⟩)
  | 0, '[' :: _ => .error (.nested .array)
  | 0, '{' :: _ => .error (.nested .object)
  | depth + 1, s@('[' :: rest) =>
    match readContainer (readValue limit depth) ']' rest with
    | .error e => .error e
    | .ok (items, ⟨left, h⟩) => .ok (.array items, ⟨left, by simp; omega⟩)
  | depth + 1, s@('{' :: rest) =>
    match readContainer (readMember (readValue limit depth)) '}' rest with
    | .error e => .error e
    | .ok (members, ⟨left, h⟩) => .ok (.object members, ⟨left, by simp; omega⟩)
  | _, s => readPlain limit s

/-! ## Texts -/

/-- Reads a text that is one JSON value with white space around it. -/
def readText (depth : Nat) (limit : Option Nat) (s : List Char) : Except Failure Json :=
  if s.head? = some '\uFEFF' then .error (.at .byteOrderMark s)
  else match readValue limit depth (skipSpace s) with
    | .error e => .error e
    | .ok (v, ⟨rest, _⟩) =>
      match skipSpace rest with
      | [] => .ok v
      | left => .error (.at .extraData left)

/-- A place in a text, both counted from 1, and the number of characters before it. -/
structure Place where
  line : Nat
  column : Nat
  offset : Nat
  deriving DecidableEq, Repr

/-- The place in a text at which `left` characters are left. -/
def placeAt (s : List Char) (left : Nat) : Place :=
  let before := s.take (s.length - left)
  { line := before.count '\n' + 1
    column := (before.reverse.takeWhile (· ≠ '\n')).length + 1
    offset := before.length }

/-- Why a text is not read. -/
inductive ReadError where
  | malformed (fault : Fault) (place : Place)
  | nested (container : Container)
  | longInteger (digits : Nat)
  deriving DecidableEq, Repr

/-- The failure with its place in the text. -/
def Failure.locate (s : List Char) : Failure → ReadError
  | .at fault left => .malformed fault (placeAt s left.length)
  | .nested container => .nested container
  | .longInteger digits => .longInteger digits

/-- Reads a JSON text in which containers stand at most `depth` deep. With a digit limit, integers that
exceed it are refused. -/
def read (depth : Nat) (limit : Option Nat) (text : String) : Except ReadError Json :=
  match readText depth limit text.toList with
  | .ok v => .ok v
  | .error e => .error (e.locate text.toList)

/-- The fault in words. -/
def Fault.message : Fault → String
  | .byteOrderMark => "Unexpected UTF-8 BOM (decode using utf-8-sig)"
  | .value => "Expecting value"
  | .propertyName => "Expecting property name enclosed in double quotes"
  | .colon => "Expecting ':' delimiter"
  | .comma => "Expecting ',' delimiter"
  | .extraData => "Extra data"
  | .unterminated => "Unterminated string starting at"
  | .controlCharacter => "Invalid control character at"
  | .escape => "Invalid \\escape"
  | .hexEscape => "Invalid \\uXXXX escape"

/-- That a container stands too deep, in words. -/
def Container.message : Container → String
  | .array => "maximum recursion depth exceeded while decoding a JSON array from a unicode string"
  | .object => "maximum recursion depth exceeded while decoding a JSON object from a unicode string"

/-- The error in words. -/
def ReadError.message : ReadError → String
  | .malformed fault place =>
    let words := fault.message
    s!"{words}: line {place.line} column {place.column} (char {place.offset})"
  | .nested container => container.message
  | .longInteger digits => (NumberError.longText digits).message

end Demotion.Json
