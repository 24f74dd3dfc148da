import Lineage.Catalog.Feed
import Lineage.Command.Basic
import Lineage.Command.Target
import Lineage.File.Access
import Lineage.Finding.Report
import Lineage.Settings.Basic
import Lineage.Tables.Relation

/-!
# Sessions

A session is one command from its start to its end. It prints to two places, one for results and one
for progress and errors, and it ends with an exit status or with an error; what was printed before
an error stands. Files and the time come from an environment in any monad.

Before anything else the settings are read, from the path that is given or from the usual one if
there is such a file. Then most commands read a snapshot, from the path that is given, the one in
the settings, or the usual one.
-/

namespace Lineage

/-- The path of the settings unless another is given. -/
def settingsFile : String := "deplens.toml"

/-- The path of the snapshot unless another is given. -/
def snapshotFile : String := "deplens-snapshot.json"

/-- Why a command fails. -/
inductive CommandError where
  | settingsUnreadable (reason : FileError)
  | settingsInvalid
  | settingsExist (path : String)
  | settingsUnwritten (reason : FileError)
  | noSnapshot
  | snapshotUnreadable (path : String) (reason : FileError)
  | snapshotInvalid (path : String)
  | fetch (reason : FetchError)
  | reference (reason : ReferenceError)
  | noTargets
  | sourceUnreadable (path : String) (reason : FileError)
  | reportUnwritten (reason : FileError)
  | packageMissing (owner name : String)
  | objectMissing (reference : String)
  | tableMissing (table : String)
  | blankArgument (reason : BlankArgument)
deriving DecidableEq

namespace CommandError

/-- The text of an error. -/
def message : CommandError → String
  | .settingsUnreadable reason => "IO error: " ++ reason.text
  | .settingsInvalid => "Parse error: the settings cannot be read"
  | .settingsExist path => path ++ " already exists. Use --force to overwrite"
  | .settingsUnwritten reason => "IO error: " ++ reason.text
  | .noSnapshot =>
    "No snapshot found. Pass --snapshot or set \x60snapshot\x60 in " ++ settingsFile
  | .snapshotUnreadable path reason =>
    "Failed to load snapshot " ++ path ++ ": IO error: " ++ path ++ ": " ++ reason.text
  | .snapshotInvalid path =>
    "Failed to load snapshot " ++ path ++ ": Parse error: the snapshot cannot be read"
  | .fetch reason => reason.message
  | .reference reason => reason.message settingsFile
  | .noTargets => "Name at least one procedure, or pass --all"
  | .sourceUnreadable path reason => "Failed to read " ++ path ++ ": " ++ reason.text
  | .reportUnwritten reason => reason.text
  | .packageMissing owner name => "Package " ++ owner ++ "." ++ name ++ " not found in snapshot"
  | .objectMissing object => object ++ " not found in dependency graph"
  | .tableMissing table => "Table " ++ table ++ " not found in schema"
  | .blankArgument reason => reason.message

end CommandError

/-- What was printed, to either place. -/
structure Transcript where
  results : String
  notes : String
deriving DecidableEq

/-- Where a session runs. -/
structure Environment (m : Type → Type) where
  files : FileAccess m
  /-- The time as it is written into reports. -/
  now : m String

/-- A session in some monad. -/
abbrev Session (m : Type → Type) := ExceptT CommandError (StateT Transcript m)

/-- The settings of a session, those of the command line included. -/
structure Context where
  options : CommonOptions
  settings : Settings

namespace Context

/-- The owner that is assumed for bare names: the one on the command line, else the one set. -/
def owner (c : Context) : Option String := c.options.owner.or c.settings.defaultOwner

end Context

namespace Session

variable {m : Type → Type} [Monad m]

/-- Prints results. -/
def print (text : String) : Session m Unit :=
  modify fun t => { t with results := t.results ++ text }

/-- Prints a note. -/
def note (text : String) : Session m Unit := modify fun t => { t with notes := t.notes ++ text }

/-- Prints a note if progress is told. -/
def progress (c : Context) (text : String) : Session m Unit :=
  if c.options.verbose then note text else pure ()

/-- Prints a value as JSON. -/
def printJson (value : Json) : Session m Unit := print (value.pretty ++ "\n")

/-- Prints a result as JSON or as text. -/
def printEither (c : Context) (value : Json) (text : String) : Session m Unit :=
  if c.options.json then printJson value else print text

/-- The value of a computation that may fail. -/
def ofExcept {ε α : Type} (wrap : ε → CommandError) : Except ε α → Session m α
  | .ok a => pure a
  | .error e => throw (wrap e)

/-- The value of an option, or an error. -/
def ofOption {α : Type} (error : CommandError) : Option α → Session m α
  | some a => pure a
  | none => throw error

/-- The owner and name that a reference stands for. -/
def qualified (c : Context) (reference : String) : Session m (String × String) :=
  ofExcept .reference (qualify reference c.owner)

variable (env : Environment m)

/-- A path if there is something at it. -/
def present? (path : String) : Session m (Option String) := do
  return if ← env.files.isThere path then some path else none

/-- The settings, with the options of the command line. -/
def readContext (options : CommonOptions) : Session m Context := do
  let path? ← match options.config with
    | some path => pure (some path)
    | none => present? env settingsFile
  match path? with
  | some path =>
    let text ← ofExcept .settingsUnreadable (← env.files.read path)
    let settings ← ofOption .settingsInvalid (Settings.read? (Path.parent path) text)
    return { options, settings }
  | none =>
    let context : Context := { options, settings := .default }
    progress context "No config file found, using defaults\n"
    return context

/-- The path of the snapshot. -/
def snapshotPath (c : Context) : Session m String := do
  match c.options.snapshot.or c.settings.snapshotPath? with
  | some path => return path
  | none => ofOption .noSnapshot (← present? env snapshotFile)

/-- The part of the snapshot that belongs to users. -/
def readSnapshot (c : Context) : Session m Snapshot := do
  let path ← snapshotPath env c
  progress c ("Loading snapshot from: " ++ path ++ "\n")
  let text ← ofExcept (.snapshotUnreadable path) (← env.files.read path)
  let stored ← ofOption (.snapshotInvalid path) (Snapshot.read? text)
  let feed := Feed.stored stored
  match feed.fault? with
  | some fault => throw (.fetch fault)
  | none => pure ()
  let snapshot ← ofExcept .fetch (feed.fetch none)
  progress c <|
    "  " ++ toString snapshot.dependencies.length ++ " edges, " ++
      toString snapshot.schema.tables.length ++ " tables, " ++
      toString snapshot.sources.size ++ " sources\n"
  return snapshot

/-- Writes a report to a file. -/
def saveReport (r : Report) (path : String) : Session m Unit := do
  ofExcept .reportUnwritten (← env.files.write path r.write)
  note ("Report saved to: " ++ path ++ "\n")

/-- Writes a report to the file that is asked for, if one is. -/
def saveReport? (r : Report) : Option String → Session m Unit
  | some path => saveReport env r path
  | none => pure ()

end Session

end Lineage
