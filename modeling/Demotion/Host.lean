import Demotion.Text.Content

/-!
# The host

What the machine and its settings decide: how deep containers may stand in each other when a text is
read, how much memory there is, and whether the console prints lone halves.

A file is read up to a number of bytes, or to its end if that number is -1. Memory for all the bytes
is asked for first, so a number can be refused because of its size alone, however short the file.
-/

namespace Demotion

/-- The machine that runs the service or the command. -/
structure Host where
  /-- How deep containers may stand in each other in a text. -/
  nesting : Nat
  /-- The most bytes that memory is given for. -/
  memory : Int
  /-- Whether the console prints halves that stand alone. -/
  printsHalves : Bool
  deriving DecidableEq, Repr

/-- Why a content cannot be printed on the console of a host. -/
def Host.unprintable? (host : Host) (c : Content) : Option Unencodable :=
  c.refused? (fun _ => host.printsHalves) 0

/-- Why a file cannot be read up to a number of bytes. -/
inductive ReadSizeError where
  /-- The number is no integer of 64 bits. -/
  | notIndex
  /-- The number is below -1. -/
  | negative
  /-- No text of bytes can be so long. -/
  | tooLong
  /-- There is not so much memory. -/
  | noMemory
  deriving DecidableEq, Repr

namespace ReadSize

/-- What a text of bytes needs besides its bytes. -/
def overhead : Int := 33

/-- Refuses a number that is no integer of 64 bits. -/
def checkIndex (size : Int) : Except ReadSizeError Unit :=
  if size < -0x8000000000000000 || 0x8000000000000000 ≤ size then .error .notIndex else .ok ()

/-- Refuses a number of bytes up to which no file can be read with the given memory. -/
def check (memory size : Int) : Except ReadSizeError Unit :=
  match checkIndex size with
  | .error e => .error e
  | .ok () =>
    if size < -1 then .error .negative
    else if 0x8000000000000000 - 1 - overhead < size then .error .tooLong
    else if memory < size then .error .noMemory
    else .ok ()

end ReadSize

/-- The error in words. Of missing memory nothing is said. -/
def ReadSizeError.message : ReadSizeError → String
  | .notIndex => "cannot fit \x27int\x27 into an index-sized integer"
  | .negative => "read length must be non-negative or -1"
  | .tooLong => "byte string is too large"
  | .noMemory => ""

end Demotion
