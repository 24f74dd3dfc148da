import Lineage.Tables.Cluster

/-!
# Statistics of a network of tables

Counts over all tables. Every foreign key counts, also one that does not name a parent.
-/

namespace Lineage

/-- Counts over the tables of a schema. -/
structure TableStatistics where
  tables : Nat
  linked : Nat
  foreignKeys : Nat
  clusters : Nat
  /-- The number of tables in the largest cluster. -/
  largestCluster : Nat
  /-- The first table that is related to most others, with their number. -/
  mostConnected : Option (String × Nat)
deriving DecidableEq

namespace TableStatistics

/-- The number of tables without a foreign key in either direction. -/
def isolated (s : TableStatistics) : Nat := s.tables - s.linked

/-- Statistics as JSON. -/
def toJson (s : TableStatistics) : Json :=
  .obj [
    ("total_tables", .nat s.tables),
    ("linked_tables", .nat s.linked),
    ("isolated_tables", .nat s.isolated),
    ("total_relationships", .nat s.foreignKeys),
    ("cluster_count", .nat s.clusters),
    ("largest_cluster_size", .nat s.largestCluster),
    ("most_connected_table", Json.strOrNull (s.mostConnected.map (·.1))),
    ("max_connections", .nat ((s.mostConnected.map (·.2)).getD 0))]

end TableStatistics

/-- The statistics of a network. A table that is related to no other is not the most connected. -/
def TableNetwork.statistics (n : TableNetwork) : TableStatistics :=
  let clusters := n.clusters
  let best := (firstGreatest? n.degree n.indices).filter (0 < n.degree ·)
  { tables := n.size
    linked := (n.indicesWhere n.isLinked).length
    foreignKeys := (n.schema.tables.flatMap (·.foreignKeys)).length
    clusters := clusters.length
    largestCluster := (clusters.head?.map (·.tables.length)).getD 0
    mostConnected := best.map fun i => (n.name i, n.degree i) }

end Lineage
