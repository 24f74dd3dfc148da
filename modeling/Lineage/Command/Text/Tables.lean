import Lineage.Command.Layout
import Lineage.Tables.Relation
import Lineage.Tables.Statistics

/-!
# Printed networks of tables

Clusters, relations and statistics of tables as they are printed.
-/

namespace Lineage

open Layout (line rule header items)

/-- A cluster as it is printed. -/
def TableCluster.printed (c : TableCluster) : String :=
  line (c.name ++ " (" ++ toString c.tables.length ++ " tables, " ++ toString c.linkCount ++
      " relationships)") ++
    (match c.central with
      | some table => line ("  Central table: " ++ table)
      | none => "") ++
    line ("  " ++ ", ".intercalate c.tables)

/-- Clusters as they are printed. -/
def TableCluster.printedAll (clusters : List TableCluster) : String :=
  header "Table Clusters" ++
    (if clusters.isEmpty then line "No linked tables"
    else String.join (clusters.map TableCluster.printed)) ++
    rule

/-- The other table of a foreign key as it is printed. -/
def RelatedTable.printed (t : RelatedTable) : String :=
  t.fullName ++ " via " ++ t.foreignKey ++ " (" ++ ", ".intercalate t.columns ++ ")"

/-- The relations of a table as they are printed. -/
def TableRelations.printed (r : TableRelations) : String :=
  header ("Table: " ++ r.owner ++ "." ++ r.name) ++
    items "References (parents):" (r.parents.map (·.printed)) ++
    items "Referenced by (children):" (r.children.map (·.printed)) ++
    (if r.isIsolated then line "Table is isolated" else "") ++
    rule

/-- Statistics as they are printed. -/
def TableStatistics.printed (s : TableStatistics) : String :=
  header "Table Relationship Statistics" ++
    line ("Total tables:         " ++ toString s.tables) ++
    line ("Linked tables:        " ++ toString s.linked) ++
    line ("Isolated tables:      " ++ toString s.isolated) ++
    line ("Relationships:        " ++ toString s.foreignKeys) ++
    line ("Clusters:             " ++ toString s.clusters) ++
    line ("Largest cluster:      " ++ toString s.largestCluster) ++
    (match s.mostConnected with
      | some (table, count) =>
        line ("Most connected table: " ++ table ++ " (" ++ toString count ++ ")")
      | none => "") ++
    rule

end Lineage
