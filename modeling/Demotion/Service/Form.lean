import Demotion.Text.Split
import Demotion.Text.Utf8

/-!
# Forms

A form carries texts and at most one file, each under the name of a field. Names stand between
double quotes, so the quote and the control characters stand in them percent-encoded and a backslash
is written twice. The service takes the name of a file as it is carried; of a path that starts at a
drive or at a share it keeps the last name only. A form with a file is sent in parts, which have
limits (`Form.check`).
-/

namespace Demotion.Service

/-! ## Names -/

/-- A control character that a form cannot carry as it is. -/
def isUncarried (c : Char) : Bool :=
  c < ' ' && c ≠ '\x1b'

/-- A character of a name in a form. -/
def carriedChar (c : Char) : List Char :=
  if c = '"' || isUncarried c then
    ['%', (Nat.digitChar (c.toNat / 16)).toUpper, (Nat.digitChar (c.toNat % 16)).toUpper]
  else [c]

/-- Whether a name is a path that starts at a drive or at a share. -/
def startsAtDrive : List Char → Bool
  | '\\' :: '\\' :: _ => true
  | drive :: ':' :: '\\' :: _ => drive.toNat < 0x80
  | _ => false

/-- The name of a file as the service takes it from a form. -/
def carriedName (name : String) : String :=
  let carried := name.toList.flatMap carriedChar
  String.ofList (if startsAtDrive carried then Text.afterLast '\\' carried else carried)

/-- The bytes of a name between its quotes. -/
def carriedSize (name : String) : Nat :=
  let carried := name.toList.flatMap carriedChar
  (Text.Utf8.encode carried).length + carried.count '\\'

/-! ## Forms -/

/-- A text of a form. -/
structure FormText where
  field : String
  content : List UInt8
  deriving DecidableEq, Repr

/-- A file of a form. -/
structure FormFile where
  field : String
  name : String
  content : List UInt8
  deriving DecidableEq, Repr

/-- A form: texts, and after them a file. -/
structure Form where
  texts : List FormText
  file : Option FormFile
  deriving DecidableEq, Repr

/-- What stands in a field of a form. -/
inductive FormValue where
  | text (content : List UInt8)
  | file (name : String) (content : List UInt8)
  deriving DecidableEq, Repr

/-- Why a form cannot be read. -/
inductive FormError where
  | heading
  | texts
  | text
  deriving DecidableEq, Repr

/-- The error in words. -/
def FormError.message : FormError → String
  | .heading => "Invalid multipart data."
  | .texts => "Too many fields. Maximum number of fields is 1000."
  | .text => "Part exceeded maximum size of 1024KB."

namespace Form

/-- A form in which nothing stands. -/
def empty : Form := ⟨[], none⟩

/-- A form in which a file without a name is a text. -/
def named (f : Form) : Form :=
  match f.file with
  | some ⟨field, "", content⟩ => ⟨f.texts ++ [⟨field, content⟩], none⟩
  | _ => f

/-- What stands in a field, of which the last counts. -/
def value? (f : Form) (field : String) : Option FormValue :=
  let texts := f.named.texts
  match f.named.file.filter (·.field = field) with
  | some file => some (.file file.name file.content)
  | none => (texts.reverse.find? (·.field = field)).map fun t => .text t.content

/-! ## Limits -/

/-- The most bytes of the heading of a part. -/
def maxHeading : Nat := 4224

/-- The most texts of a form. -/
def maxTexts : Nat := 1000

/-- The most bytes of a text. -/
def maxText : Nat := 1024 * 1024

/-- The bytes of the heading of a text. -/
def textHeading (field : String) : Nat :=
  "Content-Disposition: form-data; name=\"\"".length + carriedSize field

/-- The bytes of the heading of a file. -/
def fileHeading (field name : String) : Nat :=
  textHeading field + "; filename=\"\"".length + carriedSize name

/-- Checks texts, of which some were read before. -/
def checkTexts (before : Nat) : List FormText → Except FormError Unit
  | [] => .ok ()
  | t :: rest =>
    if maxHeading < textHeading t.field then .error .heading
    else if maxTexts < before + 1 then .error .texts
    else if maxText < t.content.length then .error .text
    else checkTexts (before + 1) rest

/-- Checks the heading of a file. -/
def checkFile (file : Option FormFile) : Except FormError Unit :=
  match file with
  | some f => if maxHeading < fileHeading f.field f.name then .error .heading else .ok ()
  | none => .ok ()

/-- Checks a form in order. One without a file is not sent in parts and has no limits. -/
def check (f : Form) : Except FormError Unit :=
  if f.file.isNone then .ok ()
  else
    match checkTexts 0 f.named.texts with
    | .error e => .error e
    | .ok () => checkFile f.named.file

end Form

end Demotion.Service
