import Lineage.Command.Layout
import Lineage.Dictionary
import Lineage.Graph.Query

/-!
# Printed graphs

A dependency graph as counts, and an object of a graph with its neighbours, as they are printed.
-/

namespace Lineage.DependencyGraph

open Layout (line rule header items column)

/-- The number of objects of each kind that occurs, by the name of the kind. -/
def kindCounts (g : DependencyGraph) : Dictionary Nat :=
  g.objects.foldl (fun counts o => counts.increment o.kind.text) .empty

/-- The counts of a graph, as they are printed. -/
def printedCounts (g : DependencyGraph) : String :=
  header "Dependency Graph" ++
    line ("Entities:     " ++ toString g.objects.length) ++
    line ("Dependencies: " ++ toString g.dependencies.length) ++
    line "" ++
    String.join (g.kindCounts.entries.map fun (kind, count) =>
      line ("  " ++ column 14 kind ++ " " ++ toString count)) ++
    rule

/-- The counts of a graph, as JSON. -/
def countsToJson (g : DependencyGraph) : Json :=
  .canonical <| .obj [
    ("entities", .nat g.objects.length),
    ("dependencies", .nat g.dependencies.length),
    ("by_type", .obj (g.kindCounts.entries.map fun (kind, count) => (kind, .nat count)))]

/-- What an object depends on and what depends on it, as text. -/
def neighbourTexts (g : DependencyGraph) (o : CatalogObject) : List String × List String :=
  ((g.dependenciesOf o.key).map (·.text), (g.dependentsOf o.key).map (·.text))

/-- An object of a graph with its neighbours, as it is printed. -/
def printedObject (g : DependencyGraph) (o : CatalogObject) : String :=
  let (uses, usedBy) := g.neighbourTexts o
  header ("Entity: " ++ o.text) ++
    (match o.status with
      | some status => line ("Status: " ++ status)
      | none => "") ++
    items "Depends on:" uses ++
    items "Referenced by:" usedBy ++
    rule

/-- An object of a graph with its neighbours, as JSON. -/
def objectToJson (g : DependencyGraph) (o : CatalogObject) : Json :=
  let (uses, usedBy) := g.neighbourTexts o
  .canonical <| .obj [
    ("entity", o.toJson), ("uses", Json.strs uses), ("used_by", Json.strs usedBy)]

end Lineage.DependencyGraph
