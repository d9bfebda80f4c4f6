import Demotion.Json.Basic
import Demotion.Number.Decimal
import Demotion.Number.Loose

/-!
# Fields of objects

A value of a known form is made from the fields of a JSON object. A field is read by what its form
asks for, with some leniency: a truth value may be spelled by a word or by 0 and 1, and a number may
stand in a text. What is wrong with fields is told for all of them at once, each with its path. Two
ways to see the numbers of an object are given, as their spelling (`Field.spelled`) and as their
value (`Field.valued`).
-/

namespace Demotion

/-- What a field of an object holds. -/
inductive Field where
  | null
  | bool (b : Bool)
  | text (content : Content)
  | integer (n : Int)
  | real (x : Binary64)
  | container
  deriving DecidableEq, Repr

/-- What is wrong with a field. -/
inductive FieldFault where
  | missing
  | notText
  | illFormedText
  | notBool
  | unreadableBool
  | notInteger
  | unreadableInteger
  | longInteger
  | fraction
  | infinite
  | notReal
  | unreadableReal
  | notArray
  | notObject
  deriving DecidableEq, Repr

/-- Faults with the paths of their fields. -/
abbrev FieldFaults := List (String × FieldFault)

namespace Field

/-- The field that a value fills, a number counting as the text that spells it. -/
def spelled : Json → Field
  | .null => .null
  | .bool b => .bool b
  | .number spelling => .text (Content.ofText spelling)
  | .string content => .text content
  | .array _ => .container
  | .object _ => .container

/-- The number that a spelling stands for. -/
def number (spelling : String) : Field :=
  match Integer.read spelling with
  | .ok n => .integer n
  | .error _ =>
    match Binary64.read spelling with
    | .ok x => .real x
    | .error _ => .text (Content.ofText spelling)

/-- The field that a value fills, a number counting as itself. -/
def valued : Json → Field
  | .number spelling => number spelling
  | v => spelled v

/-- The text of a scalar. -/
def asText : Field → Except FieldFault Content
  | .null => .error .notText
  | .bool b => .ok (Content.ofText (if b then "true" else "false"))
  | .text content => .ok content
  | .integer n => .ok (Content.ofText (toString n))
  | .real x => .ok (Content.ofText x.exact)
  | .container => .error .notText

/-- The text of a field that is one. -/
def onlyText : Field → Except FieldFault String
  | .text content =>
    match CodePoint.text? content with
    | some s => .ok (String.ofList s)
    | none => .error .illFormedText
  | _ => .error .notText

/-- The words for false and for true, in any case. -/
def falseWords : List String := ["0", "f", "n", "no", "off", "false"]

@[inherit_doc falseWords]
def trueWords : List String := ["1", "t", "y", "on", "yes", "true"]

/-- The truth value that a word stands for. -/
def boolOfWord (s : List Char) : Except FieldFault Bool :=
  let word := String.ofList (s.map Char.toLower)
  if falseWords.contains word then .ok false
  else if trueWords.contains word then .ok true
  else .error .unreadableBool

/-- The truth value of 0 or 1. -/
def boolOfInt (n : Int) : Except FieldFault Bool :=
  if n = 0 then .ok false else if n = 1 then .ok true else .error .unreadableBool

/-- The integers of 64 bits. -/
def isInt64 (n : Int) : Bool :=
  -0x8000000000000000 ≤ n && n < 0x8000000000000000

/-- The integer that a number is. -/
def wholeOf : Binary64 → Except FieldFault Int
  | .finite s m p =>
    let units := m * Nat.pow 2 p
    let size := units / Binary64.unitsPerOne
    if units % Binary64.unitsPerOne ≠ 0 then .error .fraction
    else if 0x8000000000000000 ≤ size then .error .longInteger
    else .ok (Integer.ofSign s size)
  | _ => .error .infinite

/-- The truth value of a field: a truth value, a word for one, or a number that is 0 or 1. -/
def asBool : Field → Except FieldFault Bool
  | .bool b => .ok b
  | .text content =>
    match CodePoint.text? content with
    | some s => boolOfWord s
    | none => .error .illFormedText
  | .integer n => if isInt64 n then boolOfInt n else .error .notBool
  | .real x =>
    match wholeOf x with
    | .ok n => boolOfInt n
    | .error _ => .error .notBool
  | .null => .error .notBool
  | .container => .error .notBool

/-- The integer that a text gives. -/
def integerOfText (content : Content) : Except FieldFault Int :=
  match CodePoint.text? content with
  | none => .error .illFormedText
  | some s => (Integer.readLoose s).mapError fun
    | .tooLong => .longInteger
    | .unreadable => .unreadableInteger

/-- The integer of a field: a number without a fraction, a text that gives one, or a truth
value. -/
def asInteger : Field → Except FieldFault Int
  | .integer n => .ok n
  | .bool b => .ok (if b then 1 else 0)
  | .real x => wholeOf x
  | .text content => integerOfText content
  | .null => .error .notInteger
  | .container => .error .notInteger

/-- The number that a text gives. -/
def realOfText (content : Content) : Except FieldFault Binary64 :=
  match CodePoint.text? content with
  | none => .error .illFormedText
  | some s =>
    match Binary64.readLoose? s with
    | some x => .ok x
    | none => .error .unreadableReal

/-- The number nearest to an integer, which must be in the range of numbers. -/
def realOfInt (n : Int) : Except FieldFault Binary64 :=
  match Binary64.ofInt n with
  | .infinite _ => .error .notReal
  | x => .ok x

/-- The number of a field: a number, a text that gives one, or a truth value. -/
def asReal : Field → Except FieldFault Binary64
  | .real x => .ok x
  | .integer n => realOfInt n
  | .bool b => .ok (Binary64.ofInt (if b then 1 else 0))
  | .text content => realOfText content
  | .null => .error .notReal
  | .container => .error .notReal

end Field

/-- A field that must be there. -/
def required {α : Type} (read : Field → Except FieldFault α) : Option Field → Except FieldFault α
  | none => .error .missing
  | some f => read f

/-- A field that may be missing or null. -/
def optional {α : Type} (read : Field → Except FieldFault α) :
    Option Field → Except FieldFault (Option α)
  | none => .ok none
  | some .null => .ok none
  | some f => (read f).map some

/-- A field that may be missing and then has a value of its own. -/
def defaulted {α : Type} (default : α) (read : Field → Except FieldFault α) :
    Option Field → Except FieldFault α
  | none => .ok default
  | some f => read f

/-- The fault of a result, with the name of its field. -/
def faultOf {α : Type} (name : String) : Except FieldFault α → FieldFaults
  | .ok _ => []
  | .error fault => [(name, fault)]

/-- The faults of a result. -/
def faultsOf {α : Type} : Except FieldFaults α → FieldFaults
  | .ok _ => []
  | .error faults => faults

/-- The path of what stands at a place of the array in a field. -/
def itemPath (name : String) (index : Nat) : String :=
  s!"{name}.{index}"

/-- Reads all items of an array, numbered from `index`, or tells all that is wrong with them. -/
def readItems {α : Type} (read : Nat → Json → Except FieldFaults α) (index : Nat) :
    List Json → Except FieldFaults (List α)
  | [] => .ok []
  | v :: vs =>
    match read index v, readItems read (index + 1) vs with
    | .ok a, .ok rest => .ok (a :: rest)
    | item, rest => .error (faultsOf item ++ faultsOf rest)

/-- Reads the array in a field, which may be missing. -/
def readArray {α : Type} (name : String) (read : Nat → Json → Except FieldFaults α) :
    Option Json → Except FieldFaults (List α)
  | none => .ok []
  | some (.array items) => readItems read 0 items
  | some _ => .error [(name, .notArray)]

/-- Reads the texts of the array in a field, which may be missing. -/
def readTexts (name : String) : Option Json → Except FieldFaults (List String) :=
  readArray name fun index v =>
    (Field.valued v).onlyText.mapError fun fault => [(itemPath name index, fault)]

end Demotion
