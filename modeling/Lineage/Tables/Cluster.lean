import Lineage.Json.Basic
import Lineage.Tables.Network
import Lineage.Traversal.BreadthFirst

/-!
# Clusters

A cluster is a set of linked tables that hang together: the tables that can be reached from one of
them by links in either direction. Clusters are numbered as they are found, going through the linked
tables by name, and listed by decreasing size.
-/

namespace Lineage

/-- Tables that hang together. -/
structure TableCluster where
  id : Nat
  /-- The names of the tables, in order. -/
  tables : List String
  /-- The number of foreign keys between the tables. -/
  linkCount : Nat
  /-- The table that is related to most others. -/
  central : Option String
deriving DecidableEq

namespace TableCluster

/-- The name of a cluster: that of its central table. -/
def name (c : TableCluster) : String := c.central.getD ("Cluster_" ++ toString c.id)

/-- A cluster as JSON. -/
def toJson (c : TableCluster) : Json :=
  .obj [
    ("cluster_id", .nat c.id),
    ("cluster_name", .str c.name),
    ("tables", Json.strs c.tables),
    ("relationship_count", .nat c.linkCount),
    ("central_table", Json.strOrNull c.central)]

end TableCluster

/-- The first item with the greatest value of `f`. -/
def firstGreatest? {α : Type} (f : α → Nat) : List α → Option α
  | [] => none
  | a :: as =>
    match firstGreatest? f as with
    | some b => if f a < f b then some b else some a
    | none => some a

namespace TableNetwork

variable (n : TableNetwork)

/-- The tables that hang together with a table, the nearest first. -/
def component (i : Nat) : List Nat := BreadthFirst.reached n.neighbours n.indices i

/-- The components of linked tables, in the order in which they are found. -/
def components : List (List Nat) :=
  (n.sortByName (n.indicesWhere n.isLinked)).foldl
    (fun found i => if found.any (·.contains i) then found else found ++ [n.component i]) []

/-- The cluster of some tables. -/
def cluster (id : Nat) (component : List Nat) : TableCluster :=
  let members := n.sortByName component
  { id
    tables := members.map n.name
    linkCount := n.links.countP fun link => members.contains link.1 && members.contains link.2
    central := (firstGreatest? n.degree members).map n.name }

/-- The clusters of a network, the largest first; clusters of one size are in the order in which
they are found. -/
def clusters : List TableCluster :=
  let found := n.components.zipIdx.map fun (component, i) => n.cluster (i + 1) component
  found.mergeSort fun a b => b.tables.length ≤ a.tables.length

end TableNetwork

end Lineage
