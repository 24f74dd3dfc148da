import Lineage.Proofs.Lists
import Lineage.Traversal.Tree

/-!
# Subtrees and height

The functions on trees come in pairs, one on a tree and one on the trees below a node, and every law
that relates two of them is a law of the second kind: it is shown for forests, and the law of a
tree is its law for the forest below the root. So one principle of induction serves them all,
`Tree.forest_induction`, whose step takes the first tree of a forest apart into its root and the
forest below it.

A node is more than its value: what stands below it belongs to it. `subtrees` lists the nodes with
all that is below them, in the order in which `preorder` lists their values.
-/

namespace Lineage.Tree

variable {α β : Type}

/-- What holds of no trees, and of a forest if it holds of what is below the root of the first tree
and of what is beside that tree, holds of every forest. -/
theorem forest_induction {P : List (Tree α) → Prop} (nil : P [])
    (cons : ∀ a below beside, P below → P beside → P (node a below :: beside)) : ∀ trees, P trees
  | [] => nil
  | node a below :: beside =>
    cons a below beside (forest_induction nil cons below) (forest_induction nil cons beside)

/-! ## Subtrees -/

mutual

/-- The nodes of a tree with all that is below them, in pre-order. -/
def subtrees : Tree α → List (Tree α)
  | .node a below => .node a below :: subtreesAll below

/-- The nodes of trees with all that is below them, one tree after the other. -/
def subtreesAll : List (Tree α) → List (Tree α)
  | [] => []
  | tree :: trees => tree.subtrees ++ subtreesAll trees

end

@[simp] theorem subtreesAll_nil : subtreesAll ([] : List (Tree α)) = [] := by
  rw [subtreesAll]

@[simp] theorem subtrees_node (a : α) (below : List (Tree α)) :
    (node a below).subtrees = node a below :: subtreesAll below := by
  rw [subtrees]

@[simp] theorem subtreesAll_cons (a : α) (below beside : List (Tree α)) :
    subtreesAll (node a below :: beside) =
      node a below :: (subtreesAll below ++ subtreesAll beside) := by
  rw [subtreesAll, subtrees_node, List.cons_append]

theorem map_value_subtreesAll (trees : List (Tree α)) :
    (subtreesAll trees).map value = preorderAll trees := by
  induction trees using forest_induction with
  | nil => rw [subtreesAll_nil, List.map_nil, preorderAll_nil]
  | cons a below beside ihbelow ihbeside =>
    rw [subtreesAll_cons, List.map_cons, List.map_append, ihbelow, ihbeside, preorderAll_cons,
      preorder_node, value, List.cons_append]

theorem map_value_subtrees (tree : Tree α) : tree.subtrees.map value = tree.preorder := by
  obtain ⟨a, below⟩ := tree
  rw [subtrees_node, List.map_cons, map_value_subtreesAll, preorder_node, value]

/-! ## Values changed by depth -/

section MapDepth

variable {f : Nat → α → β} {depth : Nat}

@[simp] theorem mapDepthAll_nil : mapDepthAll f depth [] = [] := by
  rw [mapDepthAll]

@[simp] theorem mapDepth_node (a : α) (below : List (Tree α)) :
    (node a below).mapDepth f depth = node (f depth a) (mapDepthAll f (depth + 1) below) := by
  rw [mapDepth]

@[simp] theorem mapDepthAll_cons (a : α) (below beside : List (Tree α)) :
    mapDepthAll f depth (node a below :: beside) =
      node (f depth a) (mapDepthAll f (depth + 1) below) :: mapDepthAll f depth beside := by
  rw [mapDepthAll, mapDepth_node]

theorem value_mapDepth (tree : Tree α) : (tree.mapDepth f depth).value = f depth tree.value := by
  obtain ⟨a, below⟩ := tree
  rw [mapDepth_node, value, value]

theorem children_mapDepth (tree : Tree α) :
    (tree.mapDepth f depth).children = mapDepthAll f (depth + 1) tree.children := by
  obtain ⟨a, below⟩ := tree
  rw [mapDepth_node, children, children]

theorem map_value_mapDepthAll (trees : List (Tree α)) :
    (mapDepthAll f depth trees).map value = trees.map fun t ↦ f depth t.value := by
  induction trees with
  | nil => rw [mapDepthAll_nil, List.map_nil, List.map_nil]
  | cons tree trees ih => rw [mapDepthAll, List.map_cons, value_mapDepth, ih, List.map_cons]

theorem forall₂_subtreesAll_mapDepthAll (f : Nat → α → β) (depth : Nat) (trees : List (Tree α)) :
    List.Forall₂ (fun t t' ↦ ∃ d, t' = t.mapDepth f d) (subtreesAll trees)
      (subtreesAll (mapDepthAll f depth trees)) := by
  induction trees using forest_induction generalizing depth with
  | nil =>
    rw [mapDepthAll_nil, subtreesAll_nil, subtreesAll_nil]
    exact .nil
  | cons a below beside ihbelow ihbeside =>
    rw [mapDepthAll_cons, subtreesAll_cons, subtreesAll_cons]
    exact .cons ⟨depth, (mapDepth_node a below).symm⟩ (List.rel_append (ihbelow _) (ihbeside _))

end MapDepth

/-! ## Height -/

mutual

/-- The number of edges on the longest way down a tree. -/
def height : Tree α → Nat
  | .node _ below => heightAll below

/-- The number of nodes on the longest way down one of the trees. -/
def heightAll : List (Tree α) → Nat
  | [] => 0
  | tree :: trees => max (tree.height + 1) (heightAll trees)

end

@[simp] theorem heightAll_nil : heightAll ([] : List (Tree α)) = 0 := by
  rw [heightAll]

@[simp] theorem height_node (a : α) (below : List (Tree α)) :
    (node a below).height = heightAll below := by
  rw [height]

@[simp] theorem heightAll_cons (a : α) (below beside : List (Tree α)) :
    heightAll (node a below :: beside) = max (heightAll below + 1) (heightAll beside) := by
  rw [heightAll, height_node]

theorem heightAll_mapDepthAll (f : Nat → α → β) (depth : Nat) (trees : List (Tree α)) :
    heightAll (mapDepthAll f depth trees) = heightAll trees := by
  induction trees using forest_induction generalizing depth with
  | nil => rw [mapDepthAll_nil, heightAll_nil, heightAll_nil]
  | cons a below beside ihbelow ihbeside =>
    rw [mapDepthAll_cons, heightAll_cons, heightAll_cons, ihbelow, ihbeside]

/-- If every value tells its depth, the greatest of them is found at the height. The nodes above the
trees, down to `depth`, are taken to be counted already. -/
theorem foldl_max_preorderAll {f : Nat → α → β} {level : β → Nat}
    (hlevel : ∀ d a, level (f d a) = d) {depth greatest : Nat} (hdepth : depth ≤ greatest)
    (trees : List (Tree α)) :
    ((preorderAll (mapDepthAll f (depth + 1) trees)).map level).foldl max greatest =
      max greatest (depth + heightAll trees) := by
  induction trees using forest_induction generalizing depth greatest with
  | nil =>
    rw [mapDepthAll_nil, preorderAll_nil, List.map_nil, List.foldl_nil, heightAll_nil]
    exact (max_eq_left hdepth).symm
  | cons a below beside ihbelow ihbeside =>
    have hbelow : depth + 1 ≤ max greatest (depth + 1) := le_max_right _ _
    have hbeside : depth ≤ max (max greatest (depth + 1)) (depth + 1 + heightAll below) := by omega
    rw [mapDepthAll_cons, preorderAll_cons, preorder_node, List.cons_append, List.map_cons,
      List.foldl_cons, List.map_append, List.foldl_append, hlevel, ihbelow hbelow,
      ihbeside hbeside, heightAll_cons]
    omega

end Lineage.Tree
