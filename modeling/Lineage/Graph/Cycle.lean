import Lineage.Graph.Basic
import Lineage.Traversal.DepthFirst

/-!
# Cycles

Cycles among the objects of a graph, found by one depth-first search from every object in turn. A
dependency that leads back to an object on the way down to it closes a cycle, and each such
dependency gives one cycle. Not every cycle is among these, but every cycle has a dependency that
closes one of them.

The search goes by keys. The two halves of a package share a key, and a body depends on its own
package; a dependency between objects of one key but of different kinds is therefore passed over.
-/

namespace Lineage.DependencyGraph

/-- Whether a dependency counts for cycles: not if its ends are different kinds of one key. -/
def countsForCycles (e : Edge) : Bool := e.source != e.target || e.sourceKind = e.targetKind

/-- The keys that a key leads to. -/
def successors (c : Catalog) (key : ObjectKey) : List ObjectKey :=
  ((c.outgoing key).filter countsForCycles).map (·.target)

/-- The cycle that is closed by coming to a key below others, the nearest first, if it is one of
them. It goes from that key down and ends with it again. -/
def closedCycle (above : List ObjectKey) (key : ObjectKey) : List (List ObjectKey) :=
  if above.contains key then [key :: ((above.takeWhile (· != key)).reverse ++ [key])] else []

/-- The cycles that can be reached from an object. -/
def cycles (g : DependencyGraph) : List (List ObjectKey) :=
  let c := g.catalog
  let visits := DepthFirst.forest (successors c) some c.sources (g.objects.map (·.key))
  Tree.collectAll closedCycle [] (Tree.mapDepthAll (fun _ v => v.edge) 0 visits)

end Lineage.DependencyGraph
