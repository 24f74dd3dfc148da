import Lineage.Distinct
import Lineage.Schema.Basic

/-!
# The network of tables

The tables of a schema and the foreign keys between them. A foreign key that refers to a table of
the schema is a link from the child to the parent; tables are told apart by their index in the
schema, since names may repeat. A foreign key to a table outside the schema is no link, though it
counts for whether its table stands alone. Links are worked out once, when the network is made.
-/

namespace Lineage

namespace Schema

/-- The children and parents of the foreign keys that refer to a table of the schema, by table and
by foreign key in order. -/
def links (s : Schema) : List (Nat × Nat) :=
  s.tables.zipIdx.flatMap fun (table, child) =>
    (table.foreignKeys.filterMap s.parentIndex?).map (child, ·)

end Schema

/-- The tables of a schema and the links between them. -/
structure TableNetwork where
  schema : Schema
  links : List (Nat × Nat)
  links_eq : links = schema.links

namespace TableNetwork

/-- The network of a schema. -/
def ofSchema (s : Schema) : TableNetwork := ⟨s, s.links, rfl⟩

variable (n : TableNetwork)

/-- The number of tables. -/
def size : Nat := n.schema.tables.length

/-- The indices of the tables. -/
def indices : List Nat := List.range n.size

/-- The name of a table. -/
def name (i : Nat) : String := (n.schema.tables[i]?.map (·.name)).getD ""

/-- The foreign keys of a table that name a parent. -/
def foreignKeys (i : Nat) : List ForeignKey :=
  ((n.schema.tables[i]?.map (·.foreignKeys)).getD []).filter (!·.parentTable.isEmpty)

/-- The parents of a table, one for each link. -/
def parents (i : Nat) : List Nat := (n.links.filter (·.1 = i)).map (·.2)

/-- The children of a table, one for each link. -/
def children (i : Nat) : List Nat := (n.links.filter (·.2 = i)).map (·.1)

/-- The tables that a table is linked to, the parents first. -/
def neighbours (i : Nat) : List Nat := n.parents i ++ n.children i

/-- Whether a table has a foreign key that names a parent, or a child. -/
def isLinked (i : Nat) : Bool := !(n.foreignKeys i).isEmpty || !(n.children i).isEmpty

/-- The names of the parents outside the schema, in upper case. -/
def outsideParents (i : Nat) : List String :=
  ((n.foreignKeys i).filter fun k => (n.schema.parentIndex? k).isNone).map
    (Text.upcase ·.parentTable)

/-- The number of tables that a table is related to, parents outside the schema included. Several
foreign keys between two tables count once. -/
def degree (i : Nat) : Nat :=
  (distinctBy id (n.neighbours i)).length + (distinctBy id (n.outsideParents i)).length

/-- The indices of tables that satisfy `p`. -/
def indicesWhere (p : Nat → Bool) : List Nat := n.indices.filter p

/-- Indices by the names of their tables. Tables of one name stay in order. -/
def sortByName (is : List Nat) : List Nat := is.mergeSort fun i j => n.name i ≤ n.name j

/-- The names of tables in order. -/
def sortedNames (is : List Nat) : List String := (n.sortByName is).map n.name

/-- The names of the tables that have a foreign key in either direction. -/
def linkedNames : List String := n.sortedNames (n.indicesWhere n.isLinked)

/-- The names of the tables that have no foreign key in either direction. -/
def isolatedNames : List String := n.sortedNames (n.indicesWhere (!n.isLinked ·))

end TableNetwork

end Lineage
