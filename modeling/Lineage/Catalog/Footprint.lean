import Lineage.Catalog.Basic
import Lineage.Text.Name
import Lineage.Traversal.DepthFirst

/-!
# Footprints

The footprint of an object is what its dependencies in a catalog amount to, sorted by what is
depended on. Tables are listed twice over: those that the object uses itself, and those behind the
views that it uses. A view is looked behind once, at its first mention; the views it is made from
are followed as far as they go, and every other kind of object stops the search.
-/

namespace Lineage

/-- A table that an object uses, by itself or through a view. -/
structure TableUse where
  owner : String
  name : String
  strength : Strength
  /-- The view that the object uses to reach the table, if it does not use it by itself. -/
  through : Option String
deriving DecidableEq

namespace TableUse

/-- The name of the table, qualified unless the owner is empty. -/
def fullName (u : TableUse) : String := Text.qualified u.owner u.name

/-- A use of a table as text. -/
def text (u : TableUse) : String :=
  match u.through with
  | some view => u.fullName ++ " (via " ++ view ++ ")"
  | none => u.fullName

/-- A use of a table as JSON. -/
def toJson (u : TableUse) : Json :=
  .obj [
    ("schema_owner", .str u.owner),
    ("table_name", .str u.name),
    ("dependency_type", u.strength.toJson),
    ("is_direct", .bool u.through.isNone),
    ("through_view", Json.strOrNull u.through)]

end TableUse

/-- A view that an object uses. -/
structure ViewUse where
  owner : String
  name : String
  strength : Strength
  /-- The names of the tables behind the view; empty at every mention but the first. -/
  tables : List String
deriving DecidableEq

namespace ViewUse

/-- The name of the view, qualified unless the owner is empty. -/
def fullName (u : ViewUse) : String := Text.qualified u.owner u.name

/-- A use of a view as JSON. -/
def toJson (u : ViewUse) : Json :=
  .obj [
    ("schema_owner", .str u.owner),
    ("view_name", .str u.name),
    ("dependency_type", u.strength.toJson),
    ("underlying_tables", Json.strs u.tables)]

/-- The uses of the tables behind a view. -/
def indirectTables (u : ViewUse) : List TableUse :=
  u.tables.map fun table =>
    let (owner, name) := Text.splitQualified table u.owner
    ⟨owner, name, .ref, some u.fullName⟩

end ViewUse

/-- What the dependencies of an object amount to. -/
structure Footprint where
  owner : String
  name : String
  /-- The tables that the object uses itself. -/
  tables : List TableUse
  views : List ViewUse
  procedures : List String
  functions : List String
  packages : List String
deriving DecidableEq

namespace Footprint

/-- The tables that the object uses through views. -/
def indirectTables (f : Footprint) : List TableUse := f.views.flatMap (·.indirectTables)

/-- The tables that the object uses, those that it uses itself first. -/
def allTables (f : Footprint) : List TableUse := f.tables ++ f.indirectTables

/-- Whether there is nothing in a footprint. -/
def isEmpty (f : Footprint) : Bool :=
  f.tables.isEmpty && f.views.isEmpty && f.procedures.isEmpty && f.functions.isEmpty &&
    f.packages.isEmpty

/-- A footprint as JSON. -/
def toJson (f : Footprint) : Json :=
  .obj [
    ("schema_owner", .str f.owner),
    ("procedure_name", .str f.name),
    ("direct_table_dependencies", .arr (f.tables.map TableUse.toJson)),
    ("view_dependencies", .arr (f.views.map ViewUse.toJson)),
    ("indirect_table_dependencies", .arr (f.indirectTables.map TableUse.toJson)),
    ("procedure_dependencies", Json.strs f.procedures),
    ("function_dependencies", Json.strs f.functions),
    ("package_dependencies", Json.strs f.packages)]

end Footprint

namespace Catalog

/-- The place that a search behind views goes on to: the target of an edge if it is a view. -/
def viewTarget (e : Edge) : Option ObjectKey :=
  if e.targetKind = .view then some e.target else none

/-- The edges behind a view, in the order in which they are looked at. -/
def edgesBehind (c : Catalog) (view : ObjectKey) : List Edge :=
  DepthFirst.edgesFrom c.outgoing viewTarget (c.sources.filter (· != view)) (c.outgoing view)

/-- The names of the tables behind a view, each in its first spelling up to ASCII case. -/
def tablesBehind (c : Catalog) (view : ObjectKey) : List String :=
  distinctBy Text.asciiFolded <|
    ((c.edgesBehind view).filter (·.targetKind = .table)).map (·.dependency.target.fullName)

/-- The views among targets of edges; those that are not in `done` are looked behind. -/
def viewUses (c : Catalog) (done : List ObjectKey) : List Edge → List ViewUse
  | [] => []
  | e :: edges =>
    let target := e.dependency.target
    let tables := if done.contains e.target then [] else c.tablesBehind e.target
    ⟨target.owner, target.name, e.dependency.strength, tables⟩ ::
      c.viewUses (e.target :: done) edges

/-- What is shown of the uses of views, their tables apart, is shown of the edges. -/
theorem map_viewUses {β : Type} (shown : String → String → Strength → β) (c : Catalog)
    (done : List ObjectKey) (edges : List Edge) :
    (c.viewUses done edges).map (fun u => shown u.owner u.name u.strength) =
      edges.map fun e => shown e.dependency.target.owner e.dependency.target.name
        e.dependency.strength := by
  induction edges generalizing done with
  | nil => rfl
  | cons e edges ih => rw [viewUses, List.map_cons, List.map_cons, ih]

/-- The names of the targets of a kind. -/
def targetNames (kind : ObjectKind) (edges : List Edge) : List String :=
  (edges.filter (·.targetKind = kind)).map (·.dependency.target.fullName)

/-- The footprint of the object of an owner and name. -/
def footprint (c : Catalog) (owner name : String) : Footprint :=
  let edges := c.outgoing (.ofNames owner name)
  { owner
    name
    tables := (edges.filter (·.targetKind = .table)).map fun e =>
      ⟨e.dependency.target.owner, e.dependency.target.name, e.dependency.strength, none⟩
    views := c.viewUses [] (edges.filter (·.targetKind = .view))
    procedures := targetNames .procedure edges
    functions := targetNames .function edges
    packages := targetNames .package edges }

end Catalog

end Lineage
