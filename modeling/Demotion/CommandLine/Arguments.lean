import Demotion.Number.Real
import Demotion.Text.Digit
import Demotion.Text.Quoted
import Demotion.Text.Split

/-!
# Arguments of the command

The command takes a source and options. An argument is first seen for itself (`classify`): an
option may be shortened as long as one option fits, and after two dashes nothing is an option. Then
the arguments are taken in order (`consume`): the first plain one is the source, and what nobody
takes is reported at the end.
-/

namespace Demotion.CommandLine

/-- An option of the command. -/
inductive Flag where
  | help
  | json
  | timeout
  | keepWorkspace
  deriving DecidableEq, Repr

/-- The spellings of the options. -/
def spellings : List (String × Flag) :=
  [("-h", .help), ("--help", .help), ("--json", .json), ("--timeout", .timeout),
    ("--keep-workspace", .keepWorkspace)]

/-- The option with all its spellings. -/
def Flag.name : Flag → String
  | .help => "-h/--help"
  | .json => "--json"
  | .timeout => "--timeout"
  | .keepWorkspace => "--keep-workspace"

/-- Why the arguments cannot be used. -/
inductive UsageError where
  | ambiguous (argument : String) (fitting : List String)
  | unusedValue (flag : Flag) (value : String)
  | missingValue
  | notReal (text : String)
  | missingSource
  | unrecognized (arguments : List String)
  deriving DecidableEq, Repr

/-- The error in words. -/
def UsageError.message : UsageError → String
  | .ambiguous argument fitting =>
    "ambiguous option: " ++ argument ++ " could match " ++ ", ".intercalate fitting
  | .unusedValue flag value =>
    "argument " ++ flag.name ++ ": ignored explicit argument " ++ Text.quoted value
  | .missingValue => "argument --timeout: expected one argument"
  | .notReal text => "argument --timeout: invalid float value: " ++ Text.quoted text
  | .missingSource => "the following arguments are required: source"
  | .unrecognized arguments => "unrecognized arguments: " ++ " ".intercalate arguments

/-! ## Single arguments -/

/-- What an argument is for itself. A value may stand behind a long option after an equals sign,
and behind a short one at once. -/
inductive Token where
  | plain (text : String)
  | long (flag : Flag) (value : Option String)
  | short (flag : Flag) (value : Option String)
  | unknown (text : String)
  | separator
  deriving DecidableEq, Repr

/-- What stands before the first equals sign and what after it. -/
def splitEquals : List Char → List Char × Option (List Char)
  | [] => ([], none)
  | c :: rest =>
    if c = '=' then ([], some rest)
    else
      let (before, after) := splitEquals rest
      (c :: before, after)

/-- A text of digits, at least one. -/
def isDigits (s : List Char) : Bool :=
  !s.isEmpty && s.all Text.isDigit

/-- A negative number, whole or with a point, up to the end of the text or of its last line. -/
def isNegativeNumber (s : List Char) : Bool :=
  match s with
  | '-' :: rest =>
    let body := if rest.getLast? = some '\n' then rest.dropLast else rest
    let whole := body.takeWhile Text.isDigit
    isDigits body || (match body.drop whole.length with
      | '.' :: places => isDigits places
      | _ => false)
  | _ => false

/-- The token of a spelling. -/
def tokenOf (spelling : String) (flag : Flag) (value : Option String) : Token :=
  if spelling = "-h" then .short flag value else .long flag value

/-- The spellings that a shortened argument with two dashes fits. -/
def fittingLong (start : List Char) : List (String × Flag) :=
  spellings.filter fun e => start.isPrefixOf e.1.toList

/-- The token of an argument that starts with two dashes, by the options that it fits. -/
def classifyLong (argument : String) : Except UsageError Token :=
  let (start, value) := splitEquals argument.toList
  match fittingLong start with
  | [] => if argument.toList.contains ' ' then .ok (.plain argument) else .ok (.unknown argument)
  | [(_, flag)] => .ok (.long flag (value.map String.ofList))
  | fitting => .error (.ambiguous argument (fitting.map (·.1)))

/-- The token of an argument that starts with one dash. -/
def classifyShort (argument : String) : Token :=
  match argument.toList with
  | '-' :: 'h' :: value => .short .help (some (String.ofList value))
  | s =>
    if isNegativeNumber s || s.contains ' ' then .plain argument else .unknown argument

/-- What an argument is for itself. -/
def classify (argument : String) : Except UsageError Token :=
  match spellings.find? (fun e => e.1 = argument) with
  | some (spelling, flag) => .ok (tokenOf spelling flag none)
  | none =>
    let (before, after) := splitEquals argument.toList
    match spellings.find? (fun e => e.1.toList = before), after with
    | some (spelling, flag), some value => .ok (tokenOf spelling flag (some (String.ofList value)))
    | _, _ =>
      match argument.toList with
      | '-' :: '-' :: _ => classifyLong argument
      | '-' :: _ :: _ => .ok (classifyShort argument)
      | _ => .ok (.plain argument)

/-- The tokens of the arguments. -/
def tokens : List String → Except UsageError (List Token)
  | [] => .ok []
  | argument :: rest =>
    if argument = "--" then .ok (.separator :: rest.map .plain)
    else
      match classify argument with
      | .error e => .error e
      | .ok token => (tokens rest).map (token :: ·)

/-! ## All arguments -/

/-- What the arguments ask for. -/
structure Arguments where
  source : String
  json : Bool
  timeout : Option Binary64
  keepWorkspace : Bool
  deriving DecidableEq, Repr

/-- What was found so far. What nobody takes stands in `extras`, the last first. -/
structure Found where
  source : Option String
  json : Bool
  timeout : Option Binary64
  keepWorkspace : Bool
  extras : List String
  deriving DecidableEq, Repr

/-- Why the arguments are not taken to the end: help was asked for, or they cannot be used. -/
inductive Stop where
  | help
  | usage (error : UsageError)
  deriving DecidableEq, Repr

/-- Adds an argument that nobody takes. -/
def Found.leave (f : Found) (argument : String) : Found :=
  { f with extras := argument :: f.extras }

/-- Takes the value of the time limit. -/
def Found.limit (f : Found) (value : String) : Except Stop Found :=
  match Binary64.read value with
  | .ok x => .ok { f with timeout := some x }
  | .error _ => .error (.usage (.notReal value))

/-- Takes an option without a value of its own. -/
def Found.switch (f : Found) : Flag → Except Stop Found
  | .help => .error .help
  | .json => .ok { f with json := true }
  | .keepWorkspace => .ok { f with keepWorkspace := true }
  | .timeout => .error (.usage .missingValue)

/-- Takes an option with a value behind it. Behind the short option for help only the same letter
may stand. -/
def Found.valued (f : Found) (isShort : Bool) (flag : Flag) (value : String) : Except Stop Found :=
  match flag with
  | .timeout => f.limit value
  | flag =>
    let rest := if isShort then value.toList.dropWhile (· = 'h') else value.toList
    if isShort && !value.isEmpty && rest.isEmpty then .error .help
    else .error (.usage (.unusedValue flag (String.ofList rest)))

/-- Takes the tokens in order. A separator right behind the source belongs to it. -/
def consume (f : Found) : List Token → Except Stop Found
  | [] => .ok f
  | .plain text :: .separator :: rest =>
    match f.source with
    | none => consume { f with source := some text } rest
    | some _ => consume (f.leave text) (.separator :: rest)
  | .plain text :: rest =>
    match f.source with
    | none => consume { f with source := some text } rest
    | some _ => consume (f.leave text) rest
  | .separator :: .plain text :: rest =>
    match f.source with
    | none => consume { f with source := some text } rest
    | some _ => consume (f.leave "--") (.plain text :: rest)
  | .separator :: rest => consume (f.leave "--") rest
  | .unknown text :: rest => consume (f.leave text) rest
  | .long .timeout none :: .plain value :: rest =>
    match f.limit value with
    | .ok f => consume f rest
    | .error e => .error e
  | .long flag none :: rest =>
    match f.switch flag with
    | .ok f => consume f rest
    | .error e => .error e
  | .short flag none :: rest =>
    match f.switch flag with
    | .ok f => consume f rest
    | .error e => .error e
  | .long flag (some value) :: rest =>
    match f.valued false flag value with
    | .ok f => consume f rest
    | .error e => .error e
  | .short flag (some value) :: rest =>
    match f.valued true flag value with
    | .ok f => consume f rest
    | .error e => .error e

/-- Reads the arguments. -/
def parse (arguments : List String) : Except Stop Arguments :=
  match tokens arguments with
  | .error e => .error (.usage e)
  | .ok tokens =>
    match consume ⟨none, false, none, false, []⟩ tokens with
    | .error e => .error e
    | .ok f =>
      match f.source, f.extras.reverse with
      | none, _ => .error (.usage .missingSource)
      | some _, e :: es => .error (.usage (.unrecognized (e :: es)))
      | some source, [] => .ok ⟨source, f.json, f.timeout, f.keepWorkspace⟩

end Demotion.CommandLine
