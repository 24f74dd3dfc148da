import Lineage.Graph.Basic

/-!
# Questions to a dependency graph

An end of a dependency stands for the first object with its key and kind or, when there is none, for
the first object with its key. So the body of a package is found where only the package itself is
among the objects. Questions about an object go by its key alone.
-/

namespace Lineage.DependencyGraph

/-- The position of the object that an end of a dependency stands for. -/
def position? (identities : List (ObjectKey × ObjectKind)) (key : ObjectKey) (kind : ObjectKind) :
    Option Nat :=
  (identities.findIdx? (· == (key, kind))).or (identities.findIdx? (·.1 == key))

/-- The objects at the positions that are found for ends of dependencies, each once. -/
def objectsAt (g : DependencyGraph) (ends : List (ObjectKey × ObjectKind)) : List CatalogObject :=
  let identities := g.objects.map (·.identity)
  let found := ends.filterMap fun e => position? identities e.1 e.2
  (distinctBy id found).filterMap (g.objects[·]?)

/-- The objects that the object of a key depends on. -/
def dependenciesOf (g : DependencyGraph) (key : ObjectKey) : List CatalogObject :=
  g.objectsAt ((g.catalog.outgoing key).map fun e => (e.target, e.targetKind))

/-- The objects that depend on the object of a key. -/
def dependentsOf (g : DependencyGraph) (key : ObjectKey) : List CatalogObject :=
  g.objectsAt ((g.catalog.incoming key).map fun e => (e.source, e.sourceKind))

/-- The objects of a kind. -/
def objectsOfKind (g : DependencyGraph) (kind : ObjectKind) : List CatalogObject :=
  g.objects.filter (·.kind = kind)

/-- The first object of a name and, where they are given, of an owner and a kind. Names are compared
ignoring ASCII case. -/
def find? (g : DependencyGraph) (name : String) (owner : Option String)
    (kind : Option ObjectKind) : Option CatalogObject :=
  g.objects.find? fun o =>
    Text.eqIgnoringAsciiCase o.name name &&
      owner.all (Text.eqIgnoringAsciiCase o.owner) && kind.all (o.kind = ·)

end Lineage.DependencyGraph
