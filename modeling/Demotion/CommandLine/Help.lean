import Demotion.CommandLine.Arguments
import Demotion.Settings

/-!
# Help on the command

The usage of the command and the help on it are laid out to the width of the terminal. Words are
never broken, so a narrow terminal may get lines that are too long for it.
-/

namespace Demotion.CommandLine

/-! ## The width -/

/-- The variable that tells the width of the terminal. -/
def widthVariable : String := "COLUMNS"

/-- The width of a terminal that does not tell it. -/
def usualWidth : Int := 80

/-- The width that an environment tells. -/
def terminalWidth (env : Environment) : Int :=
  match (env widthVariable).map Integer.read with
  | some (.ok n) => if 0 < n then n else usualWidth
  | _ => usualWidth

/-- The width of a text on a terminal, which has a margin. -/
def textWidth (env : Environment) : Int :=
  terminalWidth env - 2

/-! ## Lines of words -/

/-- Puts words on lines of a width, one line after the other: a word that does not fit any more
starts a line. The first line starts with some columns taken and the others with others. The line
that is being filled and its length are carried along. -/
def fillFrom (width : Int) (taken : Int) (line : List String) (length : Int) :
    List String → List (List String)
  | [] => if line.isEmpty then [] else [line]
  | word :: rest =>
    if width < length + 1 + word.length && !line.isEmpty then
      line :: fillFrom width taken [word] (taken + word.length) rest
    else fillFrom width taken (line ++ [word]) (length + 1 + word.length) rest

/-- Lines of words, of which the first has `first` columns taken and the others `taken`. -/
def fill (width first taken : Int) (words : List String) : List String :=
  (fillFrom width taken [] (first - 1) words).map (" ".intercalate ·)

/-- A number of spaces. -/
def spaces (n : Nat) : String :=
  String.ofList (List.replicate n ' ')

/-- The lines of a text. -/
def wrap (width : Int) (text : String) : List String :=
  fill width 0 0 ((Text.splitOn ' ' text.toList).map String.ofList)

/-! ## Usage -/

/-- The name of the command. -/
def commandName : String := "fp16-analyze"

/-- What a usage starts with. -/
def usageHead : String := "usage: "

/-- The options in a usage. -/
def usageOptions : List String :=
  ["[-h]", "[--json]", "[--timeout TIMEOUT]", "[--keep-workspace]"]

/-- The source in a usage. -/
def usageSource : List String := ["source"]

/-- The lines of a usage that does not fit on one line. Where the name of the command takes up to
three quarters of the width the options stand beside it, otherwise below it. -/
def usageLines (width : Int) : List String :=
  let beside := usageHead.length + commandName.length
  if 4 * (beside : Int) ≤ 3 * width then
    let indent := spaces (beside + 1)
    match fill width usageHead.length (beside + 1) (commandName :: usageOptions) with
    | [] => []
    | first :: others =>
      first :: (others ++ fill width (beside + 1) (beside + 1) usageSource).map (indent ++ ·)
  else
    let below (words : List String) : List String :=
      fill width usageHead.length usageHead.length words
    let together := below (usageOptions ++ usageSource)
    let lines := if 1 < together.length then below usageOptions ++ below usageSource else together
    commandName :: lines.map (spaces usageHead.length ++ ·)

/-- How the command is used. -/
def usage (width : Int) : String :=
  let whole := " ".intercalate (commandName :: usageOptions ++ usageSource)
  let lines := if width < usageHead.length + whole.length then usageLines width else [whole]
  usageHead ++ "\n".intercalate lines ++ "\n"

/-- What is reported of arguments that cannot be used. -/
def complaint (width : Int) (e : UsageError) : String :=
  usage width ++ commandName ++ ": error: " ++ e.message ++ "\n"

/-! ## Help -/

/-- The least width of a text. -/
def leastWidth : Int := 11

/-- What the command does. -/
def purpose : String := "Run the FP16 demotion analysis on a C/C++ source file"

/-- The argument that is no option, and what it means. -/
def sourceHelp : List (String × String) :=
  [("source", "Path to the C/C++ source file")]

/-- The options, and what they mean. -/
def optionHelp : List (String × String) :=
  [("-h, --help", "show this help message and exit"), ("--json", "Print the full JSON response"),
    ("--timeout TIMEOUT", "Tool timeout in seconds"),
    ("--keep-workspace", "Do not delete the workspace")]

/-- The column at which the meanings start: two behind the longest argument, unless the width is
too small. -/
def meaningColumn (width : Int) : Nat :=
  let longest := ((sourceHelp ++ optionHelp).map (·.1.length)).foldl max 0
  min (longest + 4) (min 24 (max (width - 20) 4)).toNat

/-- The lines of an argument. One that reaches into the column of the meanings has a line of its
own. -/
def argumentLines (width : Int) (argument : String × String) : List String :=
  let column := meaningColumn width
  let meaning := wrap (max (width - column) leastWidth) argument.2
  let name := "  " ++ argument.1
  if name.length + 2 ≤ column then
    match meaning with
    | [] => [name]
    | first :: others =>
      (name ++ spaces (column - name.length) ++ first) :: others.map (spaces column ++ ·)
  else name :: meaning.map (spaces column ++ ·)

/-- The lines of arguments under a title. -/
def helpSection (width : Int) (title : String) (arguments : List (String × String)) : List String :=
  (title ++ ":") :: arguments.flatMap (argumentLines width)

/-- The help on the command. -/
def help (width : Int) : String :=
  let lines := [""] ++ wrap (max width leastWidth) purpose ++
    [""] ++ helpSection width "positional arguments" sourceHelp ++
    [""] ++ helpSection width "options" optionHelp
  usage width ++ String.join (lines.map (· ++ "\n"))

end Demotion.CommandLine
