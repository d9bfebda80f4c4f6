import Demotion.Json.Basic
import Demotion.Number.Integer
import Demotion.Text.Quoted

/-!
# Writing JSON

`Json.render` writes a value over several lines: the items of a container stand on lines of their
own, indented by two spaces more than the container, and an empty container is written without a
line break. Only quotes, backslashes and control characters are escaped.
-/

namespace Demotion.Json

/-- A character as it stands in a string. -/
def writeChar (c : Char) : List Char :=
  if c = '"' then ['\\', '"']
  else if c = '\\' then ['\\', '\\']
  else if c = '\n' then ['\\', 'n']
  else if c = '\r' then ['\\', 'r']
  else if c = '\t' then ['\\', 't']
  else if c = '\x0c' then ['\\', 'f']
  else if c = '\x08' then ['\\', 'b']
  else if c.toNat < 0x20 then '\\' :: 'u' :: Text.hex 4 c.toNat
  else [c]

/-- A code point as it stands in a string. A lone half has no other form than itself. -/
def writeCodePoint : CodePoint → Content
  | .char c => (writeChar c).map .char
  | .half n => [.half n]

/-- A string with its quotes. -/
def writeString (content : Content) : Content :=
  .char '"' :: content.flatMap writeCodePoint ++ [.char '"']

/-- A line break and the indentation at a depth. -/
def lineBreak (depth : Nat) : Content :=
  .char '\n' :: List.replicate (2 * depth) (.char ' ')

mutual

/-- Writes a value that stands `depth` containers deep. -/
def write (depth : Nat) : Json → Content
  | .null => Content.ofText "null"
  | .bool true => Content.ofText "true"
  | .bool false => Content.ofText "false"
  | .number spelling => Content.ofText spelling
  | .string s => writeString s
  | .array [] => Content.ofText "[]"
  | .array (v :: vs) =>
    .char '[' :: lineBreak (depth + 1) ++ write (depth + 1) v ++ writeItems (depth + 1) vs ++
      lineBreak depth ++ [.char ']']
  | .object [] => Content.ofText "\x7b\x7d"
  | .object ((name, v) :: ms) =>
    .char '\x7b' :: lineBreak (depth + 1) ++ writeString name ++ Content.ofText ": " ++
      write (depth + 1) v ++ writeMembers (depth + 1) ms ++ lineBreak depth ++ [.char '\x7d']

/-- Writes the further items of an array, each after a comma. -/
def writeItems (depth : Nat) : List Json → Content
  | [] => []
  | v :: vs => .char ',' :: lineBreak depth ++ write depth v ++ writeItems depth vs

/-- Writes the further members of an object, each after a comma. -/
def writeMembers (depth : Nat) : List (Content × Json) → Content
  | [] => []
  | (name, v) :: ms =>
    .char ',' :: lineBreak depth ++ writeString name ++ Content.ofText ": " ++ write depth v ++
      writeMembers depth ms

end

/-- Whether a number can be written: an integer must not have too many digits. -/
def isWritableNumber (spelling : String) : Bool :=
  spelling.toList.countP Char.isDigit ≤ Integer.maxDigits

/-- Whether a number has a place in standard JSON. -/
def isFiniteNumber (spelling : String) : Bool :=
  spelling ≠ "Infinity" && spelling ≠ "-Infinity" && spelling ≠ "NaN"

/-- Whether a content has no lone halves. -/
def isTextContent (content : Content) : Bool :=
  (CodePoint.text? content).isSome

mutual

/-- Whether all numbers and strings in a value satisfy a condition. -/
def checkAll (number : String → Bool) (string : Content → Bool) : Json → Bool
  | .null => true
  | .bool _ => true
  | .number spelling => number spelling
  | .string content => string content
  | .array items => checkItems number string items
  | .object members => checkMembers number string members

/-- Whether all numbers and strings in the items satisfy a condition. -/
def checkItems (number : String → Bool) (string : Content → Bool) : List Json → Bool
  | [] => true
  | v :: vs => checkAll number string v && checkItems number string vs

/-- Whether all numbers and strings in the members satisfy a condition. -/
def checkMembers (number : String → Bool) (string : Content → Bool) :
    List (Content × Json) → Bool
  | [] => true
  | (name, v) :: ms =>
    string name && checkAll number string v && checkMembers number string ms

end

/-- Whether a value can be written. -/
def isWritable (v : Json) : Bool :=
  checkAll isWritableNumber (fun _ => true) v

/-- Whether a value can be sent: it can be written in standard JSON, and its strings are texts. -/
def isSendable (v : Json) : Bool :=
  checkAll (fun n => isWritableNumber n && isFiniteNumber n) isTextContent v

/-- The text of a value. It has lone halves where the strings of the value have them. -/
def render (v : Json) : Content :=
  write 0 v

end Demotion.Json
