import Lineage.Dictionary
import Lineage.Object.Dependency
import Lineage.Schema.Json

/-!
# Snapshots

All that was fetched from a catalog at one time: its dependencies, a description of its schemas,
and source texts under keys of the form `OWNER.NAME`. The file format is JSON in which every part
may be absent.
-/

namespace Lineage

/-- A catalog as it was at one time. -/
structure Snapshot where
  dependencies : List Dependency
  schema : Schema
  sources : Dictionary String
deriving DecidableEq

namespace Sources

/-- The text under `OWNER.NAME`: the one whose key is spelled that way, else the first in key order
whose key differs from it at most in ASCII case. -/
def find? (sources : Dictionary String) (owner name : String) : Option String :=
  let key := owner ++ "." ++ name
  match Dictionary.find? sources key with
  | some source => some source
  | none => (sources.entries.find? fun e => Text.eqIgnoringAsciiCase e.1 key).map (·.2)

/-- The dictionary of texts as JSON. -/
def toJson (sources : Dictionary String) : Json :=
  .obj (sources.entries.map fun e => (e.1, .str e.2))

/-- A dictionary of texts read from JSON. -/
def ofJson? (value : Json) : Option (Dictionary String) :=
  (Json.members? Json.text? value).map Dictionary.ofList

end Sources

namespace Snapshot

/-- The snapshot that holds nothing. -/
def empty : Snapshot := ⟨[], .empty, .empty⟩

instance : Inhabited Snapshot := ⟨empty⟩

/-- The snapshot with a source text for an object, in place of what was there. -/
def addSource (s : Snapshot) (owner name source : String) : Snapshot :=
  { s with sources := s.sources.insert (owner ++ "." ++ name) source }

/-- A snapshot as JSON. -/
def toJson (s : Snapshot) : Json :=
  .obj [
    ("dependencies", Dependency.listToJson s.dependencies),
    ("schema", s.schema.toJson),
    ("sources", Sources.toJson s.sources)]

/-- A snapshot read from JSON. -/
def ofJson? (value : Json) : Option Snapshot := do
  let r ← Json.record? ["dependencies", "schema", "sources"] value
  return {
    dependencies := ← r.defaulted "dependencies" [] Dependency.listOfJson?
    schema := ← r.defaulted "schema" .empty Schema.ofJson?
    sources := ← r.defaulted "sources" .empty Sources.ofJson? }

/-- The text of the file that holds a snapshot. -/
def write (s : Snapshot) : String := s.toJson.pretty

/-- The snapshot in the text of a file. -/
def read? (text : String) : Option Snapshot := (Json.parse text).bind ofJson?

end Snapshot

end Lineage
