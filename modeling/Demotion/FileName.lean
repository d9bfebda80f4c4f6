import Demotion.Text.Utf8

/-!
# Names of files

The system knows names as bytes. The bytes of most names are those of a text; what other bytes there
are in a name is seen from outside as lone halves (`FileName.content`), and a half in a content that
is to be a name stands for such a byte (`FileName.ofContent`).
-/

namespace Demotion

/-- A name as the system knows it: a text, or bytes that are those of no text. -/
inductive FileName where
  | text (s : String)
  | raw (bytes : List UInt8) (h : (Text.Utf8.decode bytes).toOption = none)
  deriving DecidableEq, Repr

namespace FileName

instance : Coe String FileName := ⟨text⟩

/-- The name that has the given bytes. -/
def ofBytes (bytes : List UInt8) : FileName :=
  match h : Text.Utf8.decode bytes with
  | .ok s => .text (String.ofList s)
  | .error _ => .raw bytes (by rw [h]; rfl)

/-- The name that a content stands for. -/
def ofContent (c : Content) : FileName :=
  match CodePoint.text? c with
  | some s => .text (String.ofList s)
  | none => ofBytes (c.flatMap CodePoint.bytes)

/-- A name as it is seen from outside. -/
def content : FileName → Content
  | .text s => s
  | .raw bytes _ => Text.Utf8.decodeEscaped bytes

end FileName

end Demotion
