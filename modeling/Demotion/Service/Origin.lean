import Demotion.Text.Quoted

/-!
# Origins of requests

A request may name its origin, in plain characters only. The answer says for whom it is: for
everyone, for that origin, or for nobody else.
-/

namespace Demotion.Service

/-- The first characters of an origin that are not plain, and how many stand before them. -/
structure OriginError where
  position : Nat
  characters : List Char
  deriving DecidableEq, Repr

namespace Origin

/-- The characters that an origin may have. -/
def isPlain (c : Char) : Bool :=
  c.toNat < 0x80

/-- Takes an origin that has plain characters only. -/
def read (text : String) : Except OriginError String :=
  let before := text.toList.takeWhile isPlain
  match (text.toList.drop before.length).takeWhile (!isPlain ·) with
  | [] => .ok text
  | others => .error ⟨before.length, others⟩

/-- A character by its number. -/
def escaped (c : Char) : String :=
  if c.toNat < 0x100 then "\\x" ++ String.ofList (Text.hex 2 c.toNat)
  else if c.toNat < 0x10000 then "\\u" ++ String.ofList (Text.hex 4 c.toNat)
  else "\\U" ++ String.ofList (Text.hex 8 c.toNat)

/-- For whom an answer is, if the request names its origin. -/
def allowed (origins : List String) (origin : Option String) : Option String :=
  origin.bind fun origin =>
    if origins.contains "*" then some "*"
    else if origins.contains origin then some origin
    else none

end Origin

/-- The error in words. -/
def OriginError.message (e : OriginError) : String :=
  let reason := "ordinal not in range(128)"
  match e.characters with
  | [c] =>
    let shown := Origin.escaped c
    s!"\x27ascii\x27 codec can\x27t encode character \x27{shown}\x27 in position {e.position}: {reason}"
  | characters =>
    let last := e.position + characters.length - 1
    s!"\x27ascii\x27 codec can\x27t encode characters in position {e.position}-{last}: {reason}"

end Demotion.Service
