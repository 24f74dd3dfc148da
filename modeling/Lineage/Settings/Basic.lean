import Lineage.File.Path
import Lineage.Finding.Basic
import Lineage.Settings.Allowlist
import Lineage.Toml.Document
import Lineage.Toml.Printer

/-!
# Settings

What a user may set: the owner assumed for bare names, the file that holds the snapshot, severities
that differ from those of the codes, and an allowlist. Settings are kept in a TOML file; a path in
it is relative to the directory of that file.
-/

namespace Lineage

/-- Severities in place of those of the codes, by the name of the code. -/
abbrev SeverityOverrides := List (String × Severity)

namespace SeverityOverrides

/-- The severity of a code. -/
def severityOf (overrides : SeverityOverrides) (code : FindingCode) : Severity :=
  (overrides.lookup code.text).getD code.defaultSeverity

/-- Sets the severity of a name. -/
def set (name : String) (severity : Severity) : SeverityOverrides → SeverityOverrides
  | [] => [(name, severity)]
  | (other, kept) :: rest =>
    if other == name then (name, severity) :: rest else (other, kept) :: set name severity rest

end SeverityOverrides

/-- What a user may set. -/
structure Settings where
  defaultOwner : Option String
  /-- The path of the snapshot file, as it was written. -/
  snapshot : Option String
  overrides : SeverityOverrides
  allowlist : Allowlist
  /-- The directory that paths are relative to; the empty text is the current one. -/
  root : String
deriving DecidableEq

namespace Settings

/-- The settings when nothing is set. -/
def default : Settings := ⟨none, none, [], .empty, ""⟩

instance : Inhabited Settings := ⟨default⟩

/-- The severity of a code. -/
def severityOf (s : Settings) (code : FindingCode) : Severity := s.overrides.severityOf code

/-- The path of the snapshot file; a relative one starts at the directory of the settings. -/
def snapshotPath? (s : Settings) : Option String := s.snapshot.map (Path.join s.root)

/-- The path of the snapshot file as seen from the directory of the settings; an absolute path is
not changed. -/
def snapshotFromRoot? (s : Settings) : Option String := s.snapshot.map Path.trim

/-! ## Reading -/

open Toml (Value)

/-- A text. -/
def textOf? : Value → Option String
  | .text s => some s
  | _ => none

/-- A list of texts. -/
def textsOf? : Value → Option (List String)
  | .array items => items.mapM textOf?
  | _ => none

/-- A severity: its name, or a table whose one key is the name and holds an empty table or array. -/
def severityOf? : Value → Option Severity
  | .text s => Severity.ofText? s
  | .table [(name, .table [])] => Severity.ofText? name
  | .table [(name, .array [])] => Severity.ofText? name
  | _ => none

/-- The entries of a record with the keys `known`. A list gives them in order; a date or time is a
record without known entries. -/
def recordOf? (known : List String) : Value → Option (List (String × Value))
  | .table entries => some entries
  | .array items => some (known.zip items)
  | .moment => some []
  | _ => none

/-- An entry that may be absent. -/
def entry {α : Type} (entries : List (String × Value)) (key : String) (default : α)
    (decode : Value → Option α) : Option α :=
  match entries.lookup key with
  | some v => decode v
  | none => some default

/-- The severities of the table `overrides`. -/
def overridesOf? : Value → Option SeverityOverrides
  | .table entries => entries.mapM fun (name, v) => (severityOf? v).map (name, ·)
  | _ => none

/-- The table `severity`. -/
def severityTableOf? (v : Value) : Option SeverityOverrides := do
  let entries ← recordOf? ["overrides"] v
  entry entries "overrides" [] overridesOf?

/-- The table `allowlist`. -/
def allowlistOf? (v : Value) : Option Allowlist := do
  let entries ← recordOf? ["skip_objects", "allow_dynamic_sql"] v
  return {
    skipObjects := ← entry entries "skip_objects" [] textsOf?
    allowDynamicSql := ← entry entries "allow_dynamic_sql" [] textsOf? }

/-- The settings in the text of a file in the directory `root`. -/
def read? (root text : String) : Option Settings := do
  let entries ← Toml.parse text
  return {
    defaultOwner := ← entry entries "default_owner" none fun v => (textOf? v).map some
    snapshot := ← entry entries "snapshot" none fun v => (textOf? v).map some
    overrides := ← entry entries "severity" [] severityTableOf?
    allowlist := ← entry entries "allowlist" .empty allowlistOf?
    root }

/-! ## Writing -/

/-- A line for a text that may be missing. -/
def writeOption (key : String) : Option String → String
  | some s => Toml.writeEntry key (Toml.writeText s)
  | none => ""

/-- The text of the file that holds settings. -/
def write (s : Settings) : String :=
  let top := writeOption "default_owner" s.defaultOwner ++ writeOption "snapshot" s.snapshot
  let overrides := s.overrides.map fun e => Toml.writeEntry e.1 (Toml.writeText e.2.text)
  top ++ (if top.isEmpty then "" else "\n") ++
    "[severity.overrides]\n" ++ String.join overrides ++
    "\n[allowlist]\n" ++
    Toml.writeEntry "skip_objects" (Toml.writeTexts s.allowlist.skipObjects) ++
    Toml.writeEntry "allow_dynamic_sql" (Toml.writeTexts s.allowlist.allowDynamicSql)

end Settings

end Lineage
