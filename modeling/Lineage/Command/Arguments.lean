import Lineage.Command.Basic
import Lineage.Command.Grammar

/-!
# Command lines

The commands with their words and options, and how a list of arguments becomes a request. The common
options may stand before a command, after it, or between a command and the one within it; where one
is given at several levels, the innermost counts.
-/

namespace Lineage.CommandLine

/-- The option that asks for help. -/
def helpOption : OptionSpec := ⟨"help", some 'h', .help⟩

/-- The options that go with every command. -/
def commonOptions : List OptionSpec :=
  [⟨"config", some 'c', .value .path⟩, ⟨"snapshot", some 's', .value .path⟩,
    ⟨"owner", some 'o', .value .text⟩, ⟨"json", none, .flag⟩, ⟨"verbose", some 'v', .flag⟩]

/-- The option for the file that a report is written to. -/
def outputOption : OptionSpec := ⟨"output", none, .value .path⟩

namespace Given

/-- The value of an option. -/
def value? (given : Given) (name : String) : Option String := given.options.lookup name

/-- Whether an option is given. -/
def has (given : Given) (name : String) : Bool := (given.value? name).isSome

end Given

/-- How a command is written. -/
structure CommandSpec where
  name : String
  options : List OptionSpec
  words : List ValueKind
  furtherWords : Bool
  /-- The command that is asked for; none if words are missing. -/
  make? : Given → Option Command

namespace CommandSpec

/-- What may stand after the name of a command. -/
def level (spec : CommandSpec) : Level where
  options := commonOptions ++ spec.options ++ [helpOption]
  words := spec.words
  furtherWords := spec.furtherWords
  commands := []

/-- A command with one word and no options. -/
def ofWord (name : String) (kind : ValueKind) (make : String → Command) : CommandSpec where
  name := name
  options := []
  words := [kind]
  furtherWords := false
  make? given := given.words.head?.map make

/-- A command without words. -/
def ofOptions (name : String) (options : List OptionSpec) (make : Given → Command) :
    CommandSpec where
  name := name
  options := options
  words := []
  furtherWords := false
  make? given := some (make given)

end CommandSpec

/-- The commands within `tables`. -/
def tablesCommands : List CommandSpec := [
  .ofOptions "linked" [] fun _ => .tables .linked,
  .ofOptions "isolated" [outputOption] fun given => .tables (.isolated (given.value? "output")),
  .ofOptions "clusters" [] fun _ => .tables .clusters,
  .ofWord "show" .text fun table => .tables (.relations table),
  { name := "path"
    options := []
    words := [.text, .text]
    furtherWords := false
    make? := fun given =>
      match given.words with
      | [start, stop] => some (.tables (.path start stop))
      | _ => none },
  { name := "related"
    options := [⟨"depth", some 'd', .value .count⟩]
    words := [.text]
    furtherWords := false
    make? := fun given => given.words.head?.map fun table =>
      .tables (.related table (((given.value? "depth").bind count?).getD 1)) },
  .ofOptions "stats" [] fun _ => .tables .statistics]

/-- The other commands. -/
def commands : List CommandSpec := [
  .ofWord "deps" .text .footprint,
  .ofWord "tree" .text .tree,
  .ofWord "users" .text .users,
  .ofWord "summary" .text .summary,
  { name := "compare"
    options := [⟨"all", some 'a', .flag⟩, outputOption]
    words := []
    furtherWords := true
    make? := fun given => some (.compare given.words (given.has "all") (given.value? "output")) },
  .ofWord "analyze" .path .analyze,
  .ofWord "package" .text .package,
  .ofOptions "cycles" [outputOption] fun given => .cycles (given.value? "output"),
  { name := "graph"
    options := [⟨"type", some 't', .value .text⟩]
    words := [.text]
    furtherWords := false
    make? := fun given => some (.graph given.words.head? (given.value? "type")) },
  .ofOptions "init-config" [⟨"force", some 'f', .flag⟩] fun given =>
    .initSettings (given.has "force")]

/-- The command that asks for help on the command named after it. -/
def helpCommand : String := "help"

/-- The command that has commands within it. -/
def tablesCommand : String := "tables"

/-- What may stand before the name of a command. -/
def topLevel : Level where
  options := commonOptions ++ [helpOption, ⟨"version", some 'V', .version⟩]
  words := []
  furtherWords := false
  commands := commands.map (·.name) ++ [tablesCommand, helpCommand]

/-- What may stand between `tables` and the name of the command within it. -/
def tablesLevel : Level where
  options := commonOptions ++ [helpOption]
  words := []
  furtherWords := false
  commands := tablesCommands.map (·.name) ++ [helpCommand]

/-- The request for help on a command, if there is such a command. -/
def helpOn (names : List String) : Except UsageError Request :=
  match names with
  | [] => .ok .help
  | [name] => if topLevel.commands.contains name then .ok .help else .error (.unexpectedWord name)
  | first :: second :: rest =>
    if first == tablesCommand && tablesLevel.commands.contains second then
      match rest with
      | [] => .ok .help
      | third :: _ => .error (.unexpectedWord third)
    else .error (.unexpectedWord second)

/-- The common options at some levels, the innermost first. -/
def commonAt (levels : List Given) : CommonOptions where
  config := levels.findSome? (·.value? "config")
  snapshot := levels.findSome? (·.value? "snapshot")
  owner := levels.findSome? (·.value? "owner")
  json := levels.any (·.has "json")
  verbose := levels.any (·.has "verbose")

/-- The request of a command of which the name has been read. -/
def commandRequest (specs : List CommandSpec) (outer : List Given) (name : String)
    (rest : List String) : Except UsageError Request := do
  match specs.find? (·.name == name) with
  | none => .error (.unexpectedWord name)
  | some spec =>
    let (given, ending) ← readLevel spec.level .nothing none false rest
    match ending with
    | .help => return .help
    | .version => return .version
    | .command name _ => .error (.unexpectedWord name)
    | .finished =>
      match spec.make? given with
      | some command => return .run (commonAt (given :: outer)) command
      | none => .error (.missingWord name)

/-- The request that a list of arguments states. -/
def request (arguments : List String) : Except UsageError Request := do
  let (top, ending) ← readLevel topLevel .nothing none false arguments
  match ending with
  | .help => return .help
  | .version => return .version
  | .finished => .error .missingCommand
  | .command name rest =>
    if name == helpCommand then helpOn rest
    else if name == tablesCommand then
      let (tables, ending) ← readLevel tablesLevel .nothing none false rest
      match ending with
      | .help => return .help
      | .version => return .version
      | .finished => .error .missingCommand
      | .command name rest =>
        if name == helpCommand then helpOn (tablesCommand :: rest)
        else commandRequest tablesCommands [tables, top] name rest
    else commandRequest commands [top] name rest

end Lineage.CommandLine
