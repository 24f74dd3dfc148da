import Lineage.Json.Basic
import Lineage.Tables.Network
import Lineage.Traversal.BreadthFirst
import Lineage.Text.CharClass

/-!
# Relations of a table

Questions about tables by name: the parents and children of one table, the shortest path of foreign
keys between two, and the tables within a number of steps. Where names repeat, the first table of a
name is meant. An unknown table is no error, but a blank name is.
-/

namespace Lineage

/-- Why a question about tables is refused: an argument that must not be blank, by name. -/
structure BlankArgument where
  name : String
deriving DecidableEq

namespace BlankArgument

/-- The text of the error. -/
def message (e : BlankArgument) : String :=
  "Invalid argument: '" ++ e.name ++ "' must not be empty"

end BlankArgument

/-- The other table of a foreign key. -/
structure RelatedTable where
  name : String
  owner : String
  foreignKey : String
  /-- The columns of the child. -/
  columns : List String
  /-- The columns of the parent; its primary key if the foreign key does not list them. -/
  parentColumns : List String
  parentConstraint : Option String
deriving DecidableEq

namespace RelatedTable

/-- The name of the table, qualified unless the owner is empty. -/
def fullName (t : RelatedTable) : String := Text.qualified t.owner t.name

/-- The other table of a foreign key as JSON. -/
def toJson (t : RelatedTable) : Json :=
  .obj [
    ("table_name", .str t.name),
    ("schema_owner", .str t.owner),
    ("foreign_key_name", .str t.foreignKey),
    ("columns", Json.strs t.columns),
    ("referenced_columns", Json.strs t.parentColumns),
    ("constraint_name", Json.strOrNull t.parentConstraint)]

/-- The other table of a foreign key whose parent may be known. -/
def ofKey (key : ForeignKey) (owner name : String) (parent : Option Table) : RelatedTable where
  name := name
  owner := owner
  foreignKey := key.name
  columns := key.columns
  parentColumns :=
    if key.parentColumns.isEmpty then (parent.map (·.primaryKey)).getD [] else key.parentColumns
  parentConstraint := key.parentConstraint

end RelatedTable

/-- The parents and children of a table. -/
structure TableRelations where
  name : String
  owner : String
  parents : List RelatedTable
  children : List RelatedTable
deriving DecidableEq

namespace TableRelations

/-- The number of foreign keys in either direction. -/
def total (r : TableRelations) : Nat := r.parents.length + r.children.length

/-- Whether there is no foreign key in either direction. -/
def isIsolated (r : TableRelations) : Bool := r.total == 0

/-- The relations of a table as JSON. -/
def toJson (r : TableRelations) : Json :=
  .obj [
    ("table_name", .str r.name),
    ("schema_owner", .str r.owner),
    ("parent_tables", .arr (r.parents.map RelatedTable.toJson)),
    ("child_tables", .arr (r.children.map RelatedTable.toJson)),
    ("total_relationships", .nat r.total),
    ("is_isolated", .bool r.isIsolated)]

end TableRelations

namespace TableNetwork

variable (n : TableNetwork)

/-- A parent of a table as its foreign key names it. The owner is the one in the foreign key, else
that of the parent, else that of the table. -/
def parentOf (table : Table) (key : ForeignKey) : RelatedTable :=
  let parent := (n.schema.parentIndex? key).bind (n.schema.tables[·]?)
  let owner := (key.parentOwner.or (parent.map (·.owner))).getD table.owner
  .ofKey key owner key.parentTable parent

/-- The children of the table of an index, by table and by foreign key in order. -/
def childrenOf (i : Nat) (table : Table) : List RelatedTable :=
  n.schema.tables.flatMap fun child =>
    (child.foreignKeys.filter (n.schema.parentIndex? · = some i)).map fun key =>
      .ofKey key child.owner child.name (some table)

/-- The relations of the table of an index. -/
def relations (i : Nat) (table : Table) : TableRelations where
  name := table.name
  owner := table.owner
  parents := (n.foreignKeys i).map (n.parentOf table)
  children := n.childrenOf i table

/-- A name that is not blank, given for an argument. -/
def checkName (argument name : String) : Except BlankArgument Unit :=
  if Text.isBlankText name then .error ⟨argument⟩ else .ok ()

/-- The relations of the table of a name. -/
def relations? (table : String) : Except BlankArgument (Option TableRelations) := do
  checkName "table_name" table
  return do
    let i ← n.schema.tableIndex? table
    let found ← n.schema.tables[i]?
    return n.relations i found

/-- The names of the tables on the first shortest path between two tables, ends included. -/
def path? (start stop : String) : Except BlankArgument (Option (List String)) := do
  checkName "start_table" start
  checkName "end_table" stop
  return do
    let i ← n.schema.tableIndex? start
    let j ← n.schema.tableIndex? stop
    let path ← BreadthFirst.path? n.neighbours n.indices i j
    return path.map n.name

/-- The names of the tables that take at most `steps` foreign keys to reach, in order. -/
def related (table : String) (steps : Nat) : Except BlankArgument (List String) := do
  checkName "table_name" table
  return match n.schema.tableIndex? table with
    | some i => n.sortedNames (BreadthFirst.within n.neighbours n.indices i steps)
    | none => []

end TableNetwork

end Lineage
