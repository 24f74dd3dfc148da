import Lineage.Instant
import Lineage.Object.Dependency

/-!
# Catalog objects

An object as a node of a dependency graph: its naming, what the catalog records about it, and the
dependencies it takes part in. The two lists of dependencies are derived from those of the graph.
-/

namespace Lineage

/-- An object with what is known about it. -/
structure CatalogObject extends ObjectRef where
  sourceText : Option String
  status : Option String
  created : Option Instant
  lastDdl : Option Instant
  dependencies : List Dependency
  referencedBy : List Dependency
deriving DecidableEq

namespace CatalogObject

/-- An object of which nothing but the naming is known. -/
def ofRef (ref : ObjectRef) : CatalogObject := ⟨ref, none, none, none, none, [], []⟩

/-- The object with another status and other times. -/
def withStatus (o : CatalogObject) (status : String) (created lastDdl : Option Instant) :
    CatalogObject :=
  { o with status := some status, created, lastDdl }

/-- The object with a source text. -/
def withSource (o : CatalogObject) (source : String) : CatalogObject :=
  { o with sourceText := some source }

/-- An instant read from JSON. -/
def instantOfJson? (value : Json) : Option Instant := value.text?.bind Instant.ofString?

/-- A member that is left out when there is no value. -/
def present {α : Type} (name : String) (toJson : α → Json) : Option α → List (String × Json)
  | some a => [(name, toJson a)]
  | none => []

/-- A member that is left out when the list is empty. -/
def nonempty (name : String) : List Dependency → List (String × Json)
  | [] => []
  | ds => [(name, Dependency.listToJson ds)]

/-- An object as JSON. What is not known is left out, and so is an empty list. -/
def toJson (o : CatalogObject) : Json :=
  .obj ([
    ("schema_owner", .str o.owner),
    ("name", .str o.name),
    ("entity_type", o.kind.toJson)] ++
    present "source_code" .str o.sourceText ++
    present "status" .str o.status ++
    present "created" (.str ·.toText) o.created ++
    present "last_ddl_time" (.str ·.toText) o.lastDdl ++
    nonempty "dependencies" o.dependencies ++
    nonempty "referenced_by" o.referencedBy)

/-- The members of an object in JSON. -/
def memberNames : List String :=
  ["schema_owner", "name", "entity_type", "source_code", "status", "created", "last_ddl_time",
    "dependencies", "referenced_by"]

/-- An object read from JSON. -/
def ofJson? (value : Json) : Option CatalogObject := do
  let r ← Json.record? memberNames value
  let ref : ObjectRef := {
    owner := ← r.required "schema_owner" Json.text?
    name := ← r.required "name" Json.text?
    kind := ← r.required "entity_type" ObjectKind.ofJson? }
  return {
    ref with
    sourceText := ← r.defaulted "source_code" none (Json.Record.nullable Json.text?)
    status := ← r.defaulted "status" none (Json.Record.nullable Json.text?)
    created := ← r.defaulted "created" none (Json.Record.nullable instantOfJson?)
    lastDdl := ← r.defaulted "last_ddl_time" none (Json.Record.nullable instantOfJson?)
    dependencies := ← r.defaulted "dependencies" [] Dependency.listOfJson?
    referencedBy := ← r.defaulted "referenced_by" [] Dependency.listOfJson? }

end CatalogObject

end Lineage
