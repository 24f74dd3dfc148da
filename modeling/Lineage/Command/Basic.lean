/-!
# Commands

What a user may ask for on the command line, and the options that go with every command.
-/

namespace Lineage

/-- The options that go with every command. -/
structure CommonOptions where
  /-- The path of the settings. -/
  config : Option String
  /-- The path of the snapshot. -/
  snapshot : Option String
  /-- The owner assumed for bare names. -/
  owner : Option String
  /-- Whether results are printed as JSON. -/
  json : Bool
  /-- Whether progress is told. -/
  verbose : Bool
deriving DecidableEq

/-- A question about the foreign keys between tables. -/
inductive TablesCommand where
  | linked
  | isolated (output : Option String)
  | clusters
  | relations (table : String)
  | path (start stop : String)
  | related (table : String) (steps : Nat)
  | statistics
deriving DecidableEq

/-- A command. Outputs are paths of files that reports are written to. -/
inductive Command where
  | footprint (object : String)
  | tree (object : String)
  | users (table : String)
  | summary (object : String)
  | compare (objects : List String) (all : Bool) (output : Option String)
  | analyze (file : String)
  | package (name : String)
  | cycles (output : Option String)
  | graph (object kind : Option String)
  | tables (question : TablesCommand)
  | initSettings (force : Bool)
deriving DecidableEq

/-- What a command line asks for. -/
inductive Request where
  | run (options : CommonOptions) (command : Command)
  | help
  | version
deriving DecidableEq

end Lineage
