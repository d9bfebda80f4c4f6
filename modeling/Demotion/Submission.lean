import Demotion.FilePath
import Demotion.Number.Decimal
import Demotion.Settings

/-!
# Submissions

A submission is a source file with the name that the client gives it. It is admitted by the
extension of its name and by its size; in a workspace it stands under a name of which only the
extension is the client's.
-/

namespace Demotion.Submission

/-- Why a submission is not admitted. The limit that it exceeds is in megabytes; one that is out of
the range of numbers is left out. -/
inductive Rejection where
  | noFile
  | extension (allowed : List String)
  | tooLarge (limit : Binary64)
  | outOfRange
  deriving DecidableEq, Repr

/-- The admitted extensions in lower case. -/
def allowed (s : Settings) : List String :=
  s.allowedExtensions.map fun e => String.ofList (Text.lower e.toList)

/-- The extension of a submitted name in lower case. -/
def extension (name : Content) : Content :=
  (FilePath.ofText name).extension

/-- The bytes of a megabyte. -/
def megabyte : Nat := 1024 * 1024

/-- The rejection of a submission that exceeds a limit of bytes. -/
def excess (limit : Int) : Rejection :=
  match Binary64.ofRatio (limit < 0) limit.natAbs megabyte with
  | .infinite _ => .outOfRange
  | x => .tooLarge x

/-- Admits a submission of a name and a size, or tells why not. -/
def check (s : Settings) (name : Option Content) (size : Int) : Except Rejection Unit :=
  match name with
  | none => .error .noFile
  | some name =>
    if name = [] then .error .noFile
    else if extension name ∉ (allowed s).map Content.ofText then .error (.extension (allowed s))
    else if s.uploadLimit < size then .error (excess s.uploadLimit)
    else .ok ()

/-- The rejection in words. -/
def Rejection.message : Rejection → String
  | .noFile => "No file uploaded"
  | .extension allowed =>
    "Please select a valid C/C++ file (" ++ ", ".intercalate allowed ++ ")"
  | .tooLarge limit =>
    let size := limit.brief
    s!"File too large. Maximum size is {size}MB."
  | .outOfRange => "integer division result too large for a float"

/-- The extension of a source file whose name has none. -/
def defaultExtension : String := ".c"

/-- The name of a source file in its workspace. -/
def sourceName (name : Content) : Content :=
  let own := extension name
  Content.ofText "source" ++ (if own = [] then Content.ofText defaultExtension else own)

end Demotion.Submission
