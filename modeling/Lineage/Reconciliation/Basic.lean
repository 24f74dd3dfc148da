import Lineage.Catalog.Footprint
import Lineage.Reconciliation.Evidence
import Lineage.Snapshot
import Lineage.Source.Analysis
import Lineage.Text.CharClass

/-!
# Reconciliation

What the catalog lists for an object is held against what its source text names. The outcome keeps
only the two sides; what the source text names beyond the catalog follows from them. Both sides are
compared by full names in upper case, so it does not matter for that what kind a name has on either
side. An object without a source text has only the side of the catalog.
-/

namespace Lineage

/-- The two sides of what an object needs. -/
structure Reconciliation where
  owner : String
  name : String
  /-- The tables and views of the catalog, and the tables behind the views. -/
  catalog : List NeededObject
  /-- What the source text refers to, if there is one. -/
  analysis : Option Source.Analysis

namespace Reconciliation

/-- The name of the object, qualified unless the owner is empty. -/
def fullName (r : Reconciliation) : String := Text.qualified r.owner r.name

/-- Whether there is a source text. -/
def hasSource (r : Reconciliation) : Bool := r.analysis.isSome

/-- The tables and packages that an analysis finds. A table that is named without an owner has the
given one, and so has every package. -/
def namedBy (owner : String) (a : Source.Analysis) : List NeededObject :=
  let tables := a.allTables.map fun table =>
    let (tableOwner, name) := Text.splitQualified table owner
    ⟨⟨tableOwner, name, .table⟩, .ref, .sourceText⟩
  tables ++ a.packageCalls.map fun package => ⟨⟨owner, package, .package⟩, .ref, .sourceText⟩

/-- The tables and packages that the source text names. -/
def named (r : Reconciliation) : List NeededObject :=
  (r.analysis.map (namedBy r.owner)).getD []

/-- The objects that the source text names and the catalog does not list. -/
def unlisted (r : Reconciliation) : List NeededObject :=
  let listed := r.catalog.map (Text.upcase ·.fullName)
  (r.named.filter fun o => !listed.contains (Text.upcase o.fullName)).map
    ({ · with evidence := .sourceTextOnly })

/-- Whether the source text names an object that the catalog does not list. -/
def hasUnlisted (r : Reconciliation) : Bool := !r.unlisted.isEmpty

/-- Whether the source text builds statements while it runs. -/
def hasDynamicSql (r : Reconciliation) : Bool := r.analysis.any (·.hasDynamicSql)

/-- The warning for a source text that builds statements while it runs. -/
def dynamicSqlWarning : String :=
  "Warning: This procedure contains dynamic SQL (EXECUTE IMMEDIATE or DBMS_SQL). " ++
    "Some dependencies may not be detectable through static analysis."

/-- The warning that goes with an outcome, if any does. -/
def warning? (r : Reconciliation) : Option String :=
  if r.hasDynamicSql then some dynamicSqlWarning else none

/-- An outcome as JSON. -/
def toJson (r : Reconciliation) : Json :=
  .obj [
    ("schema_owner", .str r.owner),
    ("procedure_name", .str r.name),
    ("catalog_dependencies", .arr (r.catalog.map NeededObject.toJson)),
    ("source_code_analysis", match r.analysis with
      | some a => a.toJson
      | none => .null),
    ("source_code_dependencies", .arr (r.named.map NeededObject.toJson)),
    ("new_dependencies_from_source_code", .arr (r.unlisted.map NeededObject.toJson)),
    ("contains_dynamic_sql", .bool r.hasDynamicSql),
    ("dynamic_sql_warning", Json.strOrNull r.warning?)]

end Reconciliation

/-- The objects of a footprint: the tables, the views, and the tables behind them. -/
def Footprint.neededObjects (f : Footprint) : List NeededObject :=
  f.tables.map (fun t => ⟨⟨t.owner, t.name, .table⟩, t.strength, .catalog⟩) ++
    f.views.map (fun v => ⟨⟨v.owner, v.name, .view⟩, v.strength, .catalog⟩) ++
    f.indirectTables.map (fun t => ⟨⟨t.owner, t.name, .table⟩, t.strength, .catalogThroughView⟩)

/-- What is held against each other: a catalog and source texts. -/
structure Reconciler where
  catalog : Catalog
  sources : Dictionary String

namespace Reconciler

/-- The catalog and the source texts of a snapshot. -/
def ofSnapshot (s : Snapshot) : Reconciler := ⟨.ofDependencies s.dependencies, s.sources⟩

/-- The source text of an object unless it is blank. -/
def sourceOf? (r : Reconciler) (owner name : String) : Option String :=
  (Sources.find? r.sources owner name).filter (!Text.isBlankText ·)

/-- Holds both sides of an object against each other. -/
def reconcile (r : Reconciler) (owner name : String) : Reconciliation where
  owner := owner
  name := name
  catalog := (r.catalog.footprint owner name).neededObjects
  analysis := (r.sourceOf? owner name).map Source.analyze

end Reconciler

end Lineage
