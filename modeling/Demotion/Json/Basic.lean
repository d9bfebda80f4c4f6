import Demotion.Text.Content

/-!
# JSON values

A number is kept as it is spelled, so that reading loses nothing. An escape can write half of a
surrogate pair on its own, so a string is a `Content`.
-/

namespace Demotion

/-- A JSON value. The members of an object stand in the order of the text, repeated names too. -/
inductive Json where
  | null
  | bool (b : Bool)
  | number (spelling : String)
  | string (content : Content)
  | array (items : List Json)
  | object (members : List (Content × Json))
  deriving Inhabited

namespace Json

/-- A string value. -/
def text (s : String) : Json :=
  .string (Content.ofText s)

/-- An integer value. -/
def int (n : Int) : Json :=
  .number (toString n)

/-- An array of string values. -/
def texts (items : List String) : Json :=
  .array (items.map text)

/-- An object from names and values. -/
def record (members : List (String × Json)) : Json :=
  .object (members.map fun m => (Content.ofText m.1, m.2))

/-- The value of a member, of which the last of that name counts. -/
def lookup (members : List (Content × Json)) (name : String) : Option Json :=
  (members.reverse.find? fun m => m.1 = Content.ofText name).map (·.2)

end Json

end Demotion
