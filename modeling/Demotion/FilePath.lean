import Demotion.Text.LowerCase
import Demotion.Text.Quoted
import Demotion.Text.Split

/-!
# File paths

A path is a start and the names that lead on from it, as they are given. Empty names and single dots
of its text do not count, so a path has one form; names of two dots stay, because what they lead to
is for the tree of files to say.
-/

namespace Demotion

namespace FilePath

/-- Where a path starts: in the working directory, at the top, or at the top that exactly two
slashes denote. -/
inductive Start where
  | here
  | top
  | doubleTop
  deriving DecidableEq, Repr

/-- The text of a start. -/
def Start.text : Start → String
  | .here => ""
  | .top => "/"
  | .doubleTop => "//"

/-- The start that a text has. -/
def Start.ofText (text : Content) : Start :=
  match (text.takeWhile (· = .char '/')).length with
  | 0 => .here
  | 2 => .doubleTop
  | _ => .top

/-- Names with slashes between them. -/
def joined : List Content → Content
  | [] => []
  | [name] => name
  | name :: rest => name ++ .char '/' :: joined rest

end FilePath

/-- A path to a file or a directory. -/
structure FilePath where
  start : FilePath.Start
  names : List Content
  deriving DecidableEq, Repr

namespace FilePath

/-- The path that a text denotes. -/
def ofText (text : Content) : FilePath where
  start := .ofText text
  names := (Text.splitOn (.char '/') text).filter fun name => name ≠ [] && name ≠ [.char '.']

/-- The content of a path. -/
def content (p : FilePath) : Content :=
  if p.start = .here && p.names.isEmpty then "." else p.start.text ++ joined p.names

/-- The path in a message. -/
def text (p : FilePath) : String :=
  p.content.shown

/-- The path of an entry of a directory. -/
def child (p : FilePath) (name : Content) : FilePath :=
  { p with names := p.names ++ [name] }

/-- The path that names, given by a text without a start, lead to from a directory. -/
def descend (p : FilePath) (text : Content) : FilePath :=
  { p with names := p.names ++ (ofText text).names }

/-- The path without its last name. -/
def parent (p : FilePath) : FilePath :=
  { p with names := p.names.dropLast }

/-- The last name, which is empty if there is none. -/
def name (p : FilePath) : Content :=
  p.names.getLast?.getD []

/-- The extension of a name, from its last dot on. A dot that begins or ends the name starts
none. -/
def extensionOf (name : Content) : Content :=
  if Text.beforeLast (.char '.') name = [] || Text.afterLast (.char '.') name = [] then []
  else .char '.' :: Text.afterLast (.char '.') name

/-- The extension of the last name in lower case. -/
def extension (p : FilePath) : Content :=
  (extensionOf p.name).lower

end FilePath

end Demotion
