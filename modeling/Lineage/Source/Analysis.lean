import Lineage.Json.Record
import Lineage.Source.Call

/-!
# Analysis of a source text

What a source text refers to, found by patterns and not by parsing: text that fits no pattern is
passed over, so every text has an analysis. Comments are removed before anything is looked for.
-/

namespace Lineage.Source

/-- What a source text refers to. -/
structure Analysis where
  tables : TableReferences
  packageCalls : List String
  hasDynamicSql : Bool

/-- The characters of a source text that references are looked for in. -/
def searched (source : String) : List Char := withoutComments source.toList

/-- The tables that a source text refers to, by what is done to them. -/
def tableReferences (source : String) : TableReferences := .of (searched source)

/-- The packages that a source text calls. -/
def packageCalls (source : String) : List String :=
  callsBy (packageCall (tableReferences source)) (searched source)

/-- The procedures that a source text calls. -/
def procedureCalls (source : String) : List String :=
  callsBy (procedureCall (tableReferences source)) (searched source)

/-- The functions that a source text calls. -/
def functionCalls (source : String) : List String := callsBy functionCall (searched source)

/-- Whether a source text builds statements while it runs, as far as patterns can tell. -/
def hasDynamicSql (source : String) : Bool :=
  !(Text.scan dynamicStatement (searched source)).isEmpty

/-- What a source text refers to. -/
def analyze (source : String) : Analysis where
  tables := tableReferences source
  packageCalls := packageCalls source
  hasDynamicSql := hasDynamicSql source

namespace Analysis

/-- The tables of an analysis, each once, whatever is done to them. -/
def allTables (a : Analysis) : List String := a.tables.all

/-- Whether a source text refers to nothing. -/
def isEmpty (a : Analysis) : Bool :=
  a.tables.reads.isEmpty && a.tables.inserts.isEmpty && a.tables.updates.isEmpty &&
    a.tables.deletes.isEmpty && a.tables.merges.isEmpty && a.packageCalls.isEmpty &&
    !a.hasDynamicSql

/-- An analysis as JSON. -/
def toJson (a : Analysis) : Json :=
  .obj [
    ("read_tables", Json.strs a.tables.reads),
    ("insert_tables", Json.strs a.tables.inserts),
    ("update_tables", Json.strs a.tables.updates),
    ("delete_tables", Json.strs a.tables.deletes),
    ("merge_tables", Json.strs a.tables.merges),
    ("package_calls", Json.strs a.packageCalls),
    ("contains_dynamic_sql", .bool a.hasDynamicSql)]

end Analysis

end Lineage.Source
