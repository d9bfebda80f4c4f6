/-!
# Padding

A text is brought to a width by spaces behind it or before it; a longer text stays as it is.
-/

namespace Demotion.Text

/-- A text followed by spaces up to a width. -/
def padEnd (width : Nat) (text : String) : String :=
  String.ofList (text.toList ++ List.replicate (width - text.length) ' ')

/-- A text after spaces up to a width. -/
def padStart (width : Nat) (text : String) : String :=
  String.ofList (List.replicate (width - text.length) ' ' ++ text.toList)

end Demotion.Text
