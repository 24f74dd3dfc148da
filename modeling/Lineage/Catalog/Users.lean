import Lineage.Catalog.Basic
import Lineage.Traversal.DepthFirst

/-!
# Users of an object

Which program units use an object: those that depend on it, and those that depend on a view of it,
or on a view of such a view, and so on. Only views are followed; a program unit is listed, but who
calls it is not asked.
-/

namespace Lineage.Catalog

/-- The place that a search for users goes on to: the source of an edge if it is a view. -/
def viewSource (e : Edge) : Option ObjectKey :=
  if e.sourceKind = .view then some e.source else none

/-- The edges that lead to an object, by themselves or through views, in the order in which they
are looked at. -/
def edgesTo (c : Catalog) (key : ObjectKey) : List Edge :=
  DepthFirst.edgesFrom c.incoming viewSource (c.targets.filter (· != key)) (c.incoming key)

/-- The names of the program units that use an object, each once, in the order in which they are
found. -/
def users (c : Catalog) (owner name : String) : List String :=
  let found := (c.edgesTo (.ofNames owner name)).filter (·.sourceKind.isProgramUnit)
  (distinctBy (·.source) found).map (·.dependency.source.fullName)

end Lineage.Catalog
