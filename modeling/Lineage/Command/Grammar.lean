import Lineage.Text.CharClass

/-!
# The grammar of command lines

A command line is words and options. A long option starts with two hyphens and has its value after
`=` or in the next argument. Short options start with one hyphen and may be written together; the
value of the last follows at once, with or without `=`, or in the next argument. A value in an
argument of its own must not start with a hyphen, unless it is a hyphen alone. After the argument
`--` there are only words.

A level of a command line ends at the name of a command, and what follows belongs to that command.
An option is given at most once at a level. Help and the version are asked for by options too; they
are answered as soon as they are seen.
-/

namespace Lineage.CommandLine

/-- Why a command line is refused. -/
inductive UsageError where
  | unknownOption (name : String)
  | repeatedOption (name : String)
  | missingValue (name : String)
  | unexpectedValue (name value : String)
  | invalidValue (value : String)
  | unexpectedWord (word : String)
  | missingWord (command : String)
  | missingCommand
deriving DecidableEq

namespace UsageError

/-- The text of an error. -/
def message : UsageError → String
  | .unknownOption name => "unknown option '" ++ name ++ "'"
  | .repeatedOption name => "the option '--" ++ name ++ "' is given twice"
  | .missingValue name => "the option '--" ++ name ++ "' needs a value"
  | .unexpectedValue name value => "the option '--" ++ name ++ "' takes no value, but has '" ++
      value ++ "'"
  | .invalidValue value => "the value '" ++ value ++ "' is not allowed"
  | .unexpectedWord word => "unexpected argument '" ++ word ++ "'"
  | .missingWord command => "'" ++ command ++ "' needs a further argument"
  | .missingCommand => "a command is needed"

end UsageError

/-- What a value has to be. -/
inductive ValueKind where
  | text
  /-- A text that is not empty. -/
  | path
  /-- A number of 64 bits. -/
  | count
deriving DecidableEq

/-- The number that a text states: decimal digits, which a plus sign may precede. -/
def count? (s : String) : Option Nat :=
  let digits := match s.toList with
    | '+' :: digits => digits
    | digits => digits
  if digits.isEmpty || !digits.all Char.isDigit then none
  else
    let n := digits.foldl (fun n c => 10 * n + (c.toNat - '0'.toNat)) 0
    if n < Nat.pow 2 64 then some n else none

/-- Whether a text is a value of a kind. -/
def ValueKind.allows : ValueKind → String → Bool
  | .text, _ => true
  | .path, s => !s.isEmpty
  | .count, s => (count? s).isSome

/-- What an option does. -/
inductive OptionRole where
  | flag
  | value (kind : ValueKind)
  | help
  | version
deriving DecidableEq

/-- An option. -/
structure OptionSpec where
  long : String
  short : Option Char
  role : OptionRole

/-- What may stand at a level of a command line. -/
structure Level where
  options : List OptionSpec
  /-- What the words have to be. -/
  words : List ValueKind
  /-- Whether any number of words may follow these. -/
  furtherWords : Bool
  /-- The commands that end the level. -/
  commands : List String

/-- What stands at a level of a command line. -/
structure Given where
  /-- The options, with their values; that of a flag is empty. -/
  options : List (String × String)
  words : List String

/-- How a level of a command line ends. -/
inductive Ending where
  | finished
  | command (name : String) (rest : List String)
  | help
  | version

namespace Given

/-- A level at which nothing stands yet. -/
def nothing : Given := ⟨[], []⟩

/-- With an option. -/
def give (given : Given) (option : OptionSpec) (kind : ValueKind) (value : String) :
    Except UsageError Given :=
  if given.options.any (·.1 == option.long) then .error (.repeatedOption option.long)
  else if kind.allows value then
    .ok { given with options := given.options ++ [(option.long, value)] }
  else .error (.invalidValue value)

/-- With a word. -/
def addWord (given : Given) (level : Level) (word : String) : Except UsageError Given :=
  let kind := level.words[given.words.length]?
  match kind.or (if level.furtherWords then some .text else none) with
  | none => .error (.unexpectedWord word)
  | some kind =>
    if kind.allows word then .ok { given with words := given.words ++ [word] }
    else .error (.invalidValue word)

end Given

/-- What becomes of an argument that holds options. -/
inductive Taken where
  /-- The level goes on; an option may still need a value. -/
  | onward (given : Given) (pending : Option OptionSpec)
  | ended (ending : Ending)

/-- Takes an option; `attached` is the value written in the same argument. -/
def takeOption (given : Given) (option : OptionSpec) (attached : Option String) :
    Except UsageError Taken :=
  match option.role, attached with
  | .value kind, some value => return .onward (← given.give option kind value) none
  | .value _, none => .ok (.onward given (some option))
  | .flag, none => return .onward (← given.give option .text "") none
  | .help, none => .ok (.ended .help)
  | .version, none => .ok (.ended .version)
  | _, some value => .error (.unexpectedValue option.long value)

/-- Takes a long option, without its hyphens. -/
def takeLong (level : Level) (given : Given) (body : List Char) : Except UsageError Taken :=
  let (name, rest) := body.span (· != '=')
  let attached := rest.tail?.map String.ofList
  match level.options.find? (·.long.toList == name) with
  | some option => takeOption given option attached
  | none => .error (.unknownOption ("--" ++ String.ofList name))

/-- Takes short options, without the hyphen. -/
def takeShort (level : Level) (given : Given) : List Char → Except UsageError Taken
  | [] => .ok (.onward given none)
  | c :: rest =>
    match level.options.find? (·.short == some c) with
    | none => .error (.unknownOption ("-" ++ c.toString))
    | some option =>
      match option.role, rest with
      | .value _, [] => takeOption given option none
      | .value _, '=' :: value => takeOption given option (some (String.ofList value))
      | .value _, value => takeOption given option (some (String.ofList value))
      | _, _ => do
        match ← takeOption given option none with
        | .onward given _ => takeShort level given rest
        | .ended ending => .ok (.ended ending)

/-- Reads the arguments of a level. A pending option waits for its value; after `--` arguments are
`literal`. -/
def readLevel (level : Level) (given : Given) (pending : Option OptionSpec) (literal : Bool) :
    List String → Except UsageError (Given × Ending)
  | [] =>
    match pending with
    | some option => .error (.missingValue option.long)
    | none => .ok (given, .finished)
  | argument :: rest => do
    let word : Except UsageError (Given × Ending) := do
      match pending with
      | some option =>
        match ← takeOption given option (some argument) with
        | .onward given pending => readLevel level given pending literal rest
        | .ended ending => .ok (given, ending)
      | none => readLevel level (← given.addWord level argument) none literal rest
    let options (taken : Except UsageError Taken) : Except UsageError (Given × Ending) := do
      match pending, ← taken with
      | some option, _ => .error (.missingValue option.long)
      | none, .onward given pending => readLevel level given pending literal rest
      | none, .ended ending => .ok (given, ending)
    if literal then
      match pending with
      | some option => .error (.missingValue option.long)
      | none => word
    else if pending.isNone && level.commands.contains argument then
      .ok (given, .command argument rest)
    else
      match argument.toList with
      | ['-', '-'] => readLevel level given pending true rest
      | '-' :: '-' :: body => options (takeLong level given body)
      | '-' :: c :: body => options (takeShort level given (c :: body))
      | _ => word

end Lineage.CommandLine
