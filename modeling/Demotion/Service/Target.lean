import Demotion.Number.Integer
import Demotion.Text.Quoted
import Demotion.Text.Split

/-!
# Targets of requests

A request names its target by a whole address or by a path, with a query and a fragment that do not
matter here. `Target.seenPath` is the path that the service sees: dot segments are taken out first, and
then escapes are decoded, twice on the way to the service. A path that is not part of a whole
address starts at the top of the service.
-/

namespace Demotion.Service

/-- Why a target is none. -/
inductive TargetError where
  | tooLong
  | unprintable (c : Char) (position : Nat)
  | portText (text : String)
  | doubleSlash
  | colon
  | scheme (name : String)
  deriving DecidableEq, Repr

/-- The error in words. -/
def TargetError.message : TargetError → String
  | .tooLong => "URL too long"
  | .unprintable c position =>
    let shown := Text.quoted (String.ofList [c])
    s!"Invalid non-printable ASCII character in URL, {shown} at position {position}."
  | .portText text => "Invalid port: " ++ Text.quoted text
  | .doubleSlash => "Relative URLs cannot have a path starting with \x27//\x27"
  | .colon => "Relative URLs cannot have a path starting with \x27:\x27"
  | .scheme name => Text.quoted name

/-- The parts of a target that matter: the scheme and the authority of an address, and the path. -/
structure Target where
  scheme : List Char
  authority : List Char
  path : List Char
  deriving DecidableEq, Repr

namespace Target

/-! ## Reading -/

/-- The most characters of a target. -/
def maxLength : Nat := 65536

/-- A character of a scheme after its first. -/
def isSchemeChar (c : Char) : Bool :=
  c.isAlphanum || c = '+' || c = '.' || c = '-'

/-- The scheme at the head of a text, which may be empty before its colon, and what follows. -/
def splitScheme (s : List Char) : List Char × List Char :=
  let scheme := if s.head?.any Char.isAlpha then s.takeWhile isSchemeChar else []
  match s.drop scheme.length with
  | ':' :: rest => (scheme, rest)
  | _ => ([], s)

/-- The authority at the head of a text, after two slashes, and what follows. -/
def splitAuthority : List Char → List Char × List Char
  | '/' :: '/' :: rest =>
    let authority := rest.takeWhile fun c => c ≠ '/' && c ≠ '?' && c ≠ '#'
    (authority, rest.drop authority.length)
  | s => ([], s)

/-- The parts of a text. -/
def ofChars (s : List Char) : Target :=
  let (scheme, rest) := splitScheme s
  let (authority, rest) := splitAuthority rest
  ⟨scheme, authority, rest.takeWhile fun c => c ≠ '?' && c ≠ '#'⟩

/-- What of an authority follows the user. -/
def afterUser (authority : List Char) : List Char :=
  if authority.contains '@' then (authority.dropWhile (· ≠ '@')).drop 1 else authority

/-- The host of an authority, and what follows. -/
def splitHost (s : List Char) : List Char × List Char :=
  let bracketed := match s with
    | '[' :: _ => Text.beforeLast ']' s
    | _ => []
  let host := if bracketed.isEmpty then s.takeWhile (fun c => c ≠ ':' && c ≠ '@')
    else bracketed ++ [']']
  (host, s.drop host.length)

/-- The host of an authority. -/
def host (authority : List Char) : List Char :=
  (splitHost (afterUser authority)).1

/-- What follows the host of an authority. -/
def portText (authority : List Char) : List Char :=
  match (splitHost (afterUser authority)).2 with
  | ':' :: rest => rest
  | rest => rest

/-- Whether a target is a whole address. -/
def isWhole (t : Target) : Bool :=
  !t.scheme.isEmpty && !(host t.authority).isEmpty

/-- A character that no target may have. -/
def isUnprintable (c : Char) : Bool :=
  c < ' ' || c = '\x7f'

/-- The first character that no target may have, with its position. -/
def firstUnprintable? (s : List Char) : Option (Char × Nat) :=
  s.zipIdx.find? fun e => isUnprintable e.1

/-- What is wrong with what follows the host: it is a number if it is there. -/
def portError? (t : Target) : Option TargetError :=
  let text := String.ofList (portText t.authority)
  match text, Integer.read text with
  | "", _ => none
  | _, .ok _ => none
  | _, .error _ => some (.portText text)

/-- What is wrong with the path of a target without a scheme or an authority. -/
def pathError? (t : Target) : Option TargetError :=
  if !t.scheme.isEmpty || !t.authority.isEmpty then none
  else
    match t.path with
    | '/' :: '/' :: _ => some .doubleSlash
    | ':' :: _ => some .colon
    | _ => none

/-- What is wrong with the scheme of a whole address. -/
def schemeError? (t : Target) : Option TargetError :=
  let scheme := t.scheme.map Char.toLower
  if t.isWhole && scheme ≠ "http".toList && scheme ≠ "https".toList then
    some (.scheme (String.ofList scheme))
  else none

/-- Reads a target. -/
def read (text : String) : Except TargetError Target :=
  let s := text.toList
  let t := ofChars s
  if maxLength < s.length then .error .tooLong
  else
    match firstUnprintable? s with
    | some (c, position) => .error (.unprintable c position)
    | none =>
      match ((portError? t).or (pathError? t)).or (schemeError? t) with
      | some e => .error e
      | none => .ok t

/-! ## The path -/

/-- The segments of a path without the dot segments among them. Two dots take back the segment
before them, but not the empty one that a path starts with. -/
def withoutDots (segments : List (List Char)) : List (List Char) :=
  segments.foldl (fun kept segment =>
    if segment = ['.'] then kept
    else if segment = ['.', '.'] then if kept = [[]] then kept else kept.dropLast
    else kept ++ [segment]) []

/-- A path without its dot segments. -/
def normalize (path : List Char) : List Char :=
  ['/'].intercalate (withoutDots (Text.splitOn '/' path))

/-- The value of a hexadecimal digit. -/
def hexValue? (c : Char) : Option Nat :=
  if c.isDigit then some (c.toNat - '0'.toNat)
  else if 'a' ≤ c.toLower && c.toLower ≤ 'f' then some (c.toLower.toNat - 'a'.toNat + 10)
  else none

/-- The character of an escape. A byte that is no character of its own is replaced. -/
def escaped? (high low : Char) : Option Char :=
  match hexValue? high, hexValue? low with
  | some a, some b => some (if 16 * a + b < 0x80 then Char.ofNat (16 * a + b) else '�')
  | _, _ => none

/-- A text with its escapes decoded. What is no escape stays. -/
def decode : List Char → List Char
  | [] => []
  | '%' :: high :: low :: rest =>
    match escaped? high low with
    | some c => c :: decode rest
    | none => '%' :: decode (high :: low :: rest)
  | c :: rest => c :: decode rest

/-- The path of a target before its escapes are decoded. -/
def rawPath (t : Target) : List Char :=
  if t.isWhole then normalize t.path
  else
    let path := if t.scheme.isEmpty && t.authority.isEmpty then t.path else normalize t.path
    normalize ('/' :: path.dropWhile (· = '/'))

/-- The path that the service sees. -/
def seenPath (t : Target) : List Char :=
  let raw := t.rawPath
  if raw.isEmpty then ['/'] else decode (decode raw)

end Target

end Demotion.Service
