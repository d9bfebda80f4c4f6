import Demotion.Settings
import Demotion.Text.Blank
import Demotion.Text.Split

/-!
# Environment files

An environment file binds variables, one binding a line: a key, and after an equals sign a value
that may be quoted. A quoted value may have escapes and span lines; a value without quotes ends at
its line or at a comment. A line that is no binding is skipped. Values may name other variables as
`${NAME}` or `${NAME:-default}`. The environment that was there before wins over the file. A variable
whose name has an equals sign, or that has a null character, cannot be set. The environment may say
that the file is left alone.
-/

namespace Demotion.EnvironmentFile

/-- A key with its value, if it has one. -/
abbrev Binding := String × Option String

/-- White space within a line. -/
def isGap (c : Char) : Bool :=
  Text.isBlank c && c ≠ '\n' && c ≠ '\r'

/-- A text in which every line ends with a line feed alone. -/
def plainLines : List Char → List Char
  | [] => []
  | '\r' :: '\n' :: rest => '\n' :: plainLines rest
  | c :: rest => (if c = '\r' then '\n' else c) :: plainLines rest

/-- What follows the line that a text starts in. -/
def nextLine (s : List Char) : List Char :=
  (s.dropWhile (· ≠ '\n')).drop 1

/-! ## Values -/

/-- A quoted text up to its closing quote, and what follows. A backslash and the character after
it, which must stand on the same line, belong together. -/
def quotedBody (q : Char) : List Char → Option (List Char × List Char)
  | [] => none
  | '\\' :: c :: rest =>
    if c = '\n' then none else (quotedBody q rest).map fun r => ('\\' :: c :: r.1, r.2)
  | c :: rest =>
    if c = q then some ([], rest) else (quotedBody q rest).map fun r => (c :: r.1, r.2)

/-- The character that a letter stands for after a backslash. -/
def escaped? (q c : Char) : Option Char :=
  if c = '\\' || c = '\x27' then some c
  else if q = '\x27' then none
  else
    match c with
    | '"' => some '"'
    | 'a' => some '\x07'
    | 'b' => some '\x08'
    | 'f' => some '\x0c'
    | 'n' => some '\n'
    | 'r' => some '\r'
    | 't' => some '\t'
    | 'v' => some '\x0b'
    | _ => none

/-- A quoted text with its escapes resolved. -/
def unescape (q : Char) : List Char → List Char
  | [] => []
  | '\\' :: c :: rest =>
    match escaped? q c with
    | some d => d :: unescape q rest
    | none => '\\' :: unescape q (c :: rest)
  | c :: rest => c :: unescape q rest

/-- A text up to a comment, which needs white space before it. `blanks` is the white space that was
just passed, the last first. -/
def uncommentedFrom (blanks : List Char) : List Char → List Char
  | [] => blanks.reverse
  | c :: rest =>
    if Text.isBlank c then uncommentedFrom (c :: blanks) rest
    else if c = '#' && !blanks.isEmpty then []
    else blanks.reverse ++ c :: uncommentedFrom [] rest

/-- A text up to a comment. -/
def uncommented (s : List Char) : List Char :=
  uncommentedFrom [] s

/-- The value at the head of a text, after white space that is part of it if no quote follows, and
what comes after the value. There is none if a quote is not closed. -/
def readValue (s : List Char) : Option (List Char × List Char) :=
  match s.dropWhile isGap with
  | '\x27' :: rest => (quotedBody '\x27' rest).map fun r => (unescape '\x27' r.1, r.2)
  | '"' :: rest => (quotedBody '"' rest).map fun r => (unescape '"' r.1, r.2)
  | _ =>
    some (Text.trim (uncommented (s.takeWhile (· ≠ '\n'))), s.dropWhile (· ≠ '\n'))

/-! ## Bindings -/

/-- The text after the word that may introduce a binding. -/
def dropExport (s : List Char) : List Char :=
  match Text.after? "export".toList s with
  | some rest => if rest.head?.any isGap then rest.dropWhile isGap else s
  | none => s

/-- The key at the head of a text, and what follows. A comment has no key. -/
def readKey : List Char → Option (Option (List Char) × List Char)
  | '#' :: rest => some (none, '#' :: rest)
  | '\x27' :: rest =>
    let key := rest.takeWhile (· ≠ '\x27')
    match rest.drop key.length with
    | _ :: after => if key.isEmpty then none else some (some key, after)
    | [] => none
  | s =>
    let isKeyChar (c : Char) : Bool := c ≠ '=' && c ≠ '#' && !Text.isBlank c
    let key := s.takeWhile isKeyChar
    if key.isEmpty then none else some (some key, s.drop key.length)

/-- What follows the end of a line, which may have a comment before it. -/
def endLine? (s : List Char) : Option (List Char) :=
  let rest := s.dropWhile isGap
  let rest := match rest with
    | '#' :: _ => rest.dropWhile (· ≠ '\n')
    | _ => rest
  match rest with
  | [] => some []
  | '\n' :: after => some after
  | _ => none

/-- The value after a key, if an equals sign announces one, and what follows. -/
def readAssigned (s : List Char) : Option (Option (List Char) × List Char) :=
  match s.dropWhile isGap with
  | '=' :: rest => (readValue rest).map fun r => (some r.1, r.2)
  | rest => some (none, rest)

/-- The binding at the head of a text, if there is one, and the text after its line. -/
def readBinding (s : List Char) : Option Binding × List Char :=
  let s := dropExport (s.dropWhile Text.isBlank)
  match readKey s with
  | none => (none, nextLine s)
  | some (key, afterKey) =>
    match readAssigned afterKey with
    | none => (none, nextLine afterKey)
    | some (value, afterValue) =>
      match endLine? afterValue with
      | none => (none, nextLine afterValue)
      | some rest => (key.map fun k => (String.ofList k, value.map String.ofList), rest)

/-- The bindings of a text of which at most `fuel` lines are read. -/
def bindingsWith : (fuel : Nat) → List Char → List Binding
  | 0, _ => []
  | _, [] => []
  | fuel + 1, c :: cs =>
    let (binding, rest) := readBinding (c :: cs)
    binding.toList ++ bindingsWith fuel rest

/-- A text without a byte order mark at its head. -/
def dropMark : List Char → List Char
  | '\uFEFF' :: rest => rest
  | s => s

/-- The bindings of a text in order. -/
def bindings (text : String) : List Binding :=
  let s := plainLines (dropMark text.toList)
  bindingsWith s.length s

/-! ## Variables in values -/

/-- The end of a reference to a variable: its name, its default, and what follows. -/
def readReference (s : List Char) : Option (List Char × Option (List Char) × List Char) :=
  let name := s.takeWhile fun c => c ≠ '\x7d' && c ≠ ':'
  match s.drop name.length with
  | '\x7d' :: rest => some (name, none, rest)
  | ':' :: '-' :: rest =>
    let default := rest.takeWhile (· ≠ '\x7d')
    match rest.drop default.length with
    | _ :: after => some (name, some default, after)
    | [] => none
  | _ => none

/-- A value with its references replaced, of which at most `fuel` characters are read. -/
def resolveWith (env : Environment) : (fuel : Nat) → List Char → List Char
  | 0, s => s
  | _, [] => []
  | fuel + 1, c :: rest =>
    match c, rest with
    | '$', '\x7b' :: inner =>
      match readReference inner with
      | some (name, default, after) =>
        let value := (env (String.ofList name)).map String.toList
        value.getD (default.getD []) ++ resolveWith env fuel after
      | none => c :: resolveWith env fuel rest
    | _, _ => c :: resolveWith env fuel rest

/-- A value with its references replaced. -/
def resolve (env : Environment) (value : String) : String :=
  String.ofList (resolveWith env value.length value.toList)

/-- Whether a key is bound. -/
def binds (bound : List Binding) (key : String) : Bool :=
  bound.any fun b => b.1 = key

/-- Binds a key, at its place if it is bound. -/
def bind (bound : List Binding) (key : String) (value : Option String) : List Binding :=
  if binds bound key then bound.map fun b => if b.1 = key then (key, value) else b
  else bound ++ [(key, value)]

/-- The binding of a key. -/
def lookup (bound : List Binding) (key : String) : Option (Option String) :=
  (bound.find? fun b => b.1 = key).map (·.2)

/-- The bindings with their references replaced, each seeing the environment and those before it.
A key that is bound to no value counts as bound to the empty text. -/
def resolveAll (env : Environment) (bound : List Binding) : List Binding → List Binding
  | [] => bound
  | (key, value) :: rest =>
    let seen : Environment := fun name => (env name).or ((lookup bound name).map (·.getD ""))
    resolveAll env (bind bound key (value.map (resolve seen))) rest

/-! ## The environment -/

/-- Why a variable cannot be set. -/
inductive VariableError where
  | null
  | name
  deriving DecidableEq, Repr

/-- The error in words. -/
def VariableError.message : VariableError → String
  | .null => "embedded null byte"
  | .name => "illegal environment variable name"

/-- What is wrong with a binding that sets a variable. -/
def fault? (key value : String) : Option VariableError :=
  if key.toList.contains '\x00' || value.toList.contains '\x00' then some .null
  else if key.toList.contains '=' then some .name
  else none

/-- What is wrong with the first binding that cannot set its variable, among those whose variable
is not set. -/
def firstFault? (env : Environment) (bound : List Binding) : Option VariableError :=
  bound.findSome? fun b =>
    match env b.1, b.2 with
    | none, some value => fault? b.1 value
    | _, _ => none

/-- The variable that says that environment files are left alone. -/
def switchName : String := "PYTHON_DOTENV_DISABLED"

/-- A letter without its case, as far as the words for yes go. -/
def foldCase (c : Char) : Char :=
  if c = 'ſ' then 's' else c.toLower

/-- Whether an environment says that environment files are left alone. -/
def isSwitchedOff (env : Environment) : Bool :=
  (env switchName).any fun value =>
    ["1", "true", "t", "yes", "y"].contains (String.ofList (value.toList.map foldCase))

/-- The environment with the bindings of a file. What was there stays. -/
def load (text : String) (env : Environment) : Except VariableError Environment :=
  let bound := resolveAll env [] (bindings text)
  match firstFault? env bound with
  | some e => .error e
  | none => .ok fun name => (env name).or (lookup bound name).join

end Demotion.EnvironmentFile
