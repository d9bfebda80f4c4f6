/-!
# Upper case

`upper` gives a text in upper case as far as it is made of plain Latin letters. Some other letters
have such an upper case too; all the rest stay as they are.
-/

namespace Demotion.Text

/-- The upper case of a letter, if that is made of plain Latin letters. -/
def upperChar (c : Char) : List Char :=
  if c = 'ı' then ['I']
  else if c = 'ſ' then ['S']
  else if c = 'ﬀ' then ['F', 'F']
  else if c = 'ﬁ' then ['F', 'I']
  else if c = 'ﬂ' then ['F', 'L']
  else if c = 'ﬃ' then ['F', 'F', 'I']
  else if c = 'ﬄ' then ['F', 'F', 'L']
  else if c = 'ﬅ' || c = 'ﬆ' then ['S', 'T']
  else if c = 'ß' then ['S', 'S']
  else [c.toUpper]

/-- A text in upper case. -/
def upper (text : String) : String :=
  String.ofList (text.toList.flatMap upperChar)

end Demotion.Text
