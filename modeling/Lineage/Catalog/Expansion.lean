import Lineage.Catalog.Basic
import Lineage.Traversal.DepthFirst

/-!
# Dependency trees

All that an object depends on, at any remove, as a tree: below an object stands one node for each of
its dependencies. The dependencies of an object are shown below the first node for it; any further
node for it is a leaf. So a tree shows every dependency once, whatever cycles there are.
-/

namespace Lineage

/-- An object in a dependency tree. -/
structure TreeNode where
  object : ObjectRef
  /-- The strength of the dependency that the node stands for; the root stands for none. -/
  strength : Option Strength
  /-- The number of dependencies between the root and the object. -/
  level : Nat
deriving DecidableEq

namespace TreeNode

/-- The object of a node as text, without a dot if the owner is empty. -/
def text (n : TreeNode) : String := n.object.fullName ++ " (" ++ n.object.kind.text ++ ")"

/-- The line that shows a node, indented by two spaces for every level. -/
def line (n : TreeNode) : String :=
  let strength := match n.strength with
    | some strength => " [" ++ strength.text ++ "]"
    | none => ""
  "".pushn ' ' (2 * n.level) ++ n.text ++ strength ++ "\n"

/-- A node and what is below it as JSON. -/
def toJson (n : TreeNode) (children : List Json) : Json :=
  .obj [
    ("schema_owner", .str n.object.owner),
    ("object_name", .str n.object.name),
    ("object_type", n.object.kind.toJson),
    ("dependency_type", match n.strength with
      | some strength => strength.toJson
      | none => .null),
    ("level", .nat n.level),
    ("children", .arr children)]

/-- The node for a dependency. -/
def ofDependency (level : Nat) (d : Dependency) : TreeNode := ⟨d.target, some d.strength, level⟩

end TreeNode

/-- An object and all it depends on. -/
abbrev DependencyTree := Tree TreeNode

namespace DependencyTree

/-- The number of nodes. -/
def size (t : DependencyTree) : Nat := t.preorder.length

/-- The greatest level of a node. -/
def depth (t : DependencyTree) : Nat := (t.preorder.map (·.level)).foldl max 0

/-- The lines of a tree, one for each node, each before those below it. -/
def render (t : DependencyTree) : String := String.join (t.preorder.map (·.line))

/-- A tree as JSON. -/
def toJson (t : DependencyTree) : Json := t.fold TreeNode.toJson

end DependencyTree

namespace Catalog

/-- All that an object depends on, as a tree. The kind of the root is the one that the catalog gives
the object in its first dependency; an object without any counts as a procedure. -/
def dependencyTree (c : Catalog) (owner name : String) : DependencyTree :=
  let root := ObjectKey.ofNames owner name
  let edges := c.outgoing root
  let kind := (edges.head?.map (·.sourceKind)).getD .procedure
  let below := DepthFirst.forest c.outgoing (some ·.target) (c.sources.filter (· != root)) edges
  .node ⟨⟨owner, name, kind⟩, none, 0⟩
    (Tree.mapDepthAll (fun level v => TreeNode.ofDependency level v.edge.dependency) 1 below)

end Catalog

end Lineage
