import Lineage.Catalog.Basic
import Lineage.Object.Basic

/-!
# Dependency graphs

A dependency graph is a list of objects and a list of dependencies, each in the order in which they
came. The ends of a dependency need not be among the objects, and either list may hold repeats. What
an object records of its own dependencies is brought up to date only by `reindex`.
-/

namespace Lineage

/-- Objects and the dependencies between them. -/
structure DependencyGraph where
  objects : List CatalogObject
  dependencies : List Dependency
deriving DecidableEq

namespace DependencyGraph

/-- The graph without objects. -/
def empty : DependencyGraph := ⟨[], []⟩

instance : Inhabited DependencyGraph := ⟨empty⟩

/-- The graph with one more object. -/
def addObject (g : DependencyGraph) (o : CatalogObject) : DependencyGraph :=
  { g with objects := g.objects ++ [o] }

/-- The graph with one more dependency. -/
def addDependency (g : DependencyGraph) (d : Dependency) : DependencyGraph :=
  { g with dependencies := g.dependencies ++ [d] }

/-- The dependencies of a graph, by both ends. -/
def catalog (g : DependencyGraph) : Catalog := .ofDependencies g.dependencies

/-- Whether some object has a key and a kind. -/
def contains (g : DependencyGraph) (key : ObjectKey) (kind : ObjectKind) : Bool :=
  g.objects.any fun o => o.kind = kind && o.key == key

/-- An object with the dependencies that it takes part in, whatever its kind. -/
def indexed (c : Catalog) (o : CatalogObject) : CatalogObject :=
  let key := o.key
  { o with
    dependencies := (c.outgoing key).map (·.dependency)
    referencedBy := (c.incoming key).map (·.dependency) }

/-- The graph in which every object records the dependencies that it takes part in. -/
def reindex (g : DependencyGraph) : DependencyGraph :=
  let c := g.catalog
  { g with objects := g.objects.map (indexed c) }

/-- The graph with the objects and dependencies of another. An object with the key and kind of an
earlier one is left out; a dependency never is. -/
def merge (g other : DependencyGraph) : DependencyGraph :=
  let new := (distinctBy (·.identity) other.objects).filter fun o => !g.contains o.key o.kind
  reindex ⟨g.objects ++ new, g.dependencies ++ other.dependencies⟩

/-- A graph as JSON. -/
def toJson (g : DependencyGraph) : Json :=
  .obj [
    ("entities", .arr (g.objects.map CatalogObject.toJson)),
    ("dependencies", Dependency.listToJson g.dependencies)]

/-- A graph read from JSON. -/
def ofJson? (value : Json) : Option DependencyGraph := do
  let r ← Json.record? ["entities", "dependencies"] value
  return {
    objects := ← r.required "entities" (Json.list? CatalogObject.ofJson?)
    dependencies := ← r.required "dependencies" Dependency.listOfJson? }

end DependencyGraph

end Lineage
