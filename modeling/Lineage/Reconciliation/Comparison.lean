import Lineage.Reconciliation.Basic

/-!
# Comparison reports

The outcome of a reconciliation as text for reading, in five parts: a warning if there is one, what
the catalog lists by kind, what the source text names by what is done to it, what only the source
text names, and counts.
-/

namespace Lineage.Reconciliation

/-- A heading and a rule under it. -/
def heading (title : String) : String := "\n" ++ title ++ ":\n" ++ "".pushn '-' 40 ++ "\n"

/-- The warning between its marks. -/
def warningPart (r : Reconciliation) : String :=
  match r.warning? with
  | some warning => "\n*** WARNING ***\n" ++ warning ++ "\n\n"
  | none => ""

/-- The objects that the catalog lists, by kind in the order in which the kinds occur. -/
def catalogPart (r : Reconciliation) : String :=
  let group (kind : ObjectKind) : String :=
    "  " ++ kind.text ++ "s:\n" ++
      String.join ((r.catalog.filter (·.object.kind = kind)).map fun o =>
        "    - " ++ o.fullName ++ " (" ++ o.evidence.text ++ ")\n")
  heading "CATALOG DEPENDENCIES (from ALL_DEPENDENCIES)" ++
    (if r.catalog.isEmpty then "  (none found)\n"
    else String.join ((distinctBy id (r.catalog.map (·.object.kind))).map group))

/-- The names under a label; nothing if there is no name. -/
def labelled (label : String) (names : List String) : String :=
  if names.isEmpty then ""
  else "  " ++ label ++ ":\n" ++ String.join (names.map ("    - " ++ · ++ "\n"))

/-- The names in the source text, by what is done to them. -/
def sourcePart (r : Reconciliation) : String :=
  heading "SOURCE CODE DEPENDENCIES" ++
    match r.analysis with
    | some a =>
      labelled "Read Tables (SELECT/FROM/JOIN)" a.tables.reads ++
        labelled "Insert Tables" a.tables.inserts ++
        labelled "Update Tables" a.tables.updates ++
        labelled "Delete Tables" a.tables.deletes ++
        labelled "Merge Tables" a.tables.merges ++
        labelled "Package Calls" a.packageCalls
    | none => "  (source code not available)\n"

/-- What is to be known about objects that only a source text names. -/
def unlistedNote : String :=
  "\nNote: These dependencies were found in source code but not in ALL_DEPENDENCIES.\n" ++
    "This could indicate:\n" ++
    "  - Dynamic SQL usage\n" ++
    "  - Tables/views accessed via synonyms\n" ++
    "  - Objects in different schemas\n" ++
    "  - Invalid object references\n"

/-- The objects that only the source text names. -/
def unlistedPart (r : Reconciliation) : String :=
  heading "NEW DEPENDENCIES (found only in source code)" ++
    if r.unlisted.isEmpty then "  (none - catalog and source code match)\n"
    else
      String.join (r.unlisted.map fun o =>
        "  - " ++ o.fullName ++ " (" ++ o.object.kind.text ++ ")\n") ++ unlistedNote

/-- The counts of both sides. -/
def countsPart (r : Reconciliation) : String :=
  heading "SUMMARY" ++
    "  Catalog dependencies: " ++ toString r.catalog.length ++ "\n" ++
    "  Source code dependencies: " ++ toString r.named.length ++ "\n" ++
    "  New from source code: " ++ toString r.unlisted.length ++ "\n" ++
    "  Contains dynamic SQL: " ++ (if r.hasDynamicSql then "Yes" else "No") ++ "\n"

/-- The comparison report of an outcome. -/
def comparison (r : Reconciliation) : String :=
  "Dependency Comparison Report for " ++ r.owner ++ "." ++ r.name ++ "\n" ++
    "".pushn '=' 60 ++ "\n" ++
    warningPart r ++ catalogPart r ++ sourcePart r ++ unlistedPart r ++ countsPart r

end Lineage.Reconciliation
