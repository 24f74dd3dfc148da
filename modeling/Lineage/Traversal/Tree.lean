/-!
# Trees

Ordered trees with a value at every node, as searches leave them behind, and the ways in which they
are read: in pre-order, from the leaves up, and with the values on the way down from the root.
-/

namespace Lineage

/-- A value with any number of trees below it, in order. -/
inductive Tree (α : Type) where
  | node (value : α) (children : List (Tree α))

namespace Tree

variable {α β : Type}

/-- The value at the root. -/
def value : Tree α → α
  | .node a _ => a

/-- The trees below the root. -/
def children : Tree α → List (Tree α)
  | .node _ below => below

mutual

/-- The values of a tree, every one before those below it, from the first child to the last. -/
def preorder : Tree α → List α
  | .node a below => a :: preorderAll below

/-- The values of trees, one tree after the other. -/
def preorderAll : List (Tree α) → List α
  | [] => []
  | tree :: trees => tree.preorder ++ preorderAll trees

end

mutual

/-- The value of a tree under a function of the value at a node and the results below it. -/
def fold (f : α → List β → β) : Tree α → β
  | .node a below => f a (foldAll f below)

/-- The values of trees under such a function. -/
def foldAll (f : α → List β → β) : List (Tree α) → List β
  | [] => []
  | tree :: trees => tree.fold f :: foldAll f trees

end

mutual

/-- The tree with every value changed by a function of its depth, the root having `depth`. -/
def mapDepth (f : Nat → α → β) (depth : Nat) : Tree α → Tree β
  | .node a below => .node (f depth a) (mapDepthAll f (depth + 1) below)

/-- Trees with every value changed by a function of its depth, the roots having `depth`. -/
def mapDepthAll (f : Nat → α → β) (depth : Nat) : List (Tree α) → List (Tree β)
  | [] => []
  | tree :: trees => tree.mapDepth f depth :: mapDepthAll f depth trees

end

mutual

/-- Collects, in pre-order, what `f` gives for the values above a node, the nearest first, and the
value at it. The argument `above` is the values above the root. -/
def collect (f : List α → α → List β) (above : List α) : Tree α → List β
  | .node a below => f above a ++ collectAll f (a :: above) below

/-- Collects over trees with the same values above them, one tree after the other. -/
def collectAll (f : List α → α → List β) (above : List α) : List (Tree α) → List β
  | [] => []
  | tree :: trees => tree.collect f above ++ collectAll f above trees

end

@[simp] theorem preorderAll_nil : preorderAll ([] : List (Tree α)) = [] := by
  simp [preorderAll]

@[simp] theorem preorderAll_cons (tree : Tree α) (trees : List (Tree α)) :
    preorderAll (tree :: trees) = tree.preorder ++ preorderAll trees := by
  simp [preorderAll]

@[simp] theorem preorder_node (a : α) (below : List (Tree α)) :
    (node a below).preorder = a :: preorderAll below := by
  simp [preorder]

end Tree

end Lineage
