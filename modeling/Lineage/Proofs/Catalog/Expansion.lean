import Lineage.Catalog.Expansion
import Lineage.Proofs.Traversal.Opening

/-!
# What a dependency tree shows

A dependency tree stands for a graph that may have cycles and in which many ways may lead to one
object. It is finite because an object is expanded once. This module says that nothing is lost by
that: every dependency of an object that can be reached from the root is shown, and shown once.

## The forest below the root

The tree is the forest of a depth-first search with its edges turned into nodes, below a node for
the root. What the search looks at is known (`DepthFirst.mem_edgesFrom_next_iff`), but that is a
statement about membership, and a catalog may list a dependency twice. The count comes from the
places that the search takes: each is taken once, and the edges of a place are those that the
catalog lists for it.

## The nodes

Where a node is expanded is a law of the search as well (`Explored.isOpenedAfter`), with one gap.
The search does not open places without edges, and it does not open the root, which it starts from.
In the tree the two differ: an object without dependencies has nothing to be shown below its first
node, while the root is the first node of its object and every later one is a leaf.
-/

open Relation

namespace Lineage

/-! ## Dependencies within reach -/

/-- Whether a dependency in a list leads from one object to another. -/
def Dependency.LeadsTo (ds : List Dependency) (a b : ObjectKey) : Prop :=
  ∃ d ∈ ds, d.source.key = a ∧ d.target.key = b

open Classical in
/-- The dependencies of the objects that can be reached from an object, itself included. -/
noncomputable def Dependency.reachedFrom (ds : List Dependency) (root : ObjectKey) :
    List Dependency :=
  ds.filter fun d ↦ ReflTransGen (LeadsTo ds) root d.source.key

/-! ## Nodes and their expansion -/

/-- What a node shows of a dependency: the object that is needed, and how much. -/
def TreeNode.label (n : TreeNode) : ObjectRef × Option Strength := (n.object, n.strength)

/-- The nodes for all dependencies of the object of a node, one level further down. -/
def TreeNode.expansion (ds : List Dependency) (n : TreeNode) : List TreeNode :=
  (ds.filter (·.source.key == n.object.key)).map (.ofDependency (n.level + 1))

/-- Whether the first node of every object, in pre-order, has all dependencies of that object below
it, in order, and every later node of the object is a leaf. -/
structure DependencyTree.IsExpansion (ds : List Dependency) (tree : DependencyTree) : Prop where
  first : ∀ front t back, tree.subtrees = front ++ t :: back →
    t.value.object.key ∉ front.map (·.value.object.key) →
      t.children.map Tree.value = t.value.expansion ds
  again : ∀ front t back, tree.subtrees = front ++ t :: back →
    t.value.object.key ∈ front.map (·.value.object.key) → t.children = []

theorem DependencyTree.IsExpansion.level_eq {ds : List Dependency} {tree : DependencyTree}
    (h : tree.IsExpansion ds) {t u : DependencyTree} (ht : t ∈ tree.subtrees)
    (hu : u ∈ t.children) : u.value.level = t.value.level + 1 := by
  obtain ⟨front, back, hsplit⟩ := List.append_of_mem ht
  by_cases hkey : t.value.object.key ∈ front.map (·.value.object.key)
  · rw [h.again front t back hsplit hkey] at hu
    exact absurd hu List.not_mem_nil
  · have hvalue : u.value ∈ t.value.expansion ds :=
      h.first front t back hsplit hkey ▸ List.mem_map_of_mem hu
    obtain ⟨d, -, hd⟩ := List.mem_map.mp hvalue
    rw [← hd, TreeNode.ofDependency]

namespace Catalog

variable {c : Catalog} {ds : List Dependency} {root k : ObjectKey} {level : Nat}

/-! ## The forest below the root -/

/-- The objects that may be expanded below the root. -/
def expandable (c : Catalog) (root : ObjectKey) : List ObjectKey := c.sources.filter (· != root)

theorem nodup_expandable : (c.expandable root).Nodup := by
  have hnodup := nodup_map_distinctBy id (c.edges.map (·.source))
  rw [List.map_id] at hnodup
  exact hnodup.filter _

theorem eq_or_outgoing_eq_nil (h : k ∉ c.expandable root) : k = root ∨ c.outgoing k = [] := by
  rw [or_iff_not_imp_left]
  intro hroot
  exact outgoing_eq_nil fun hsource ↦ h (List.mem_filter.mpr ⟨hsource, bne_iff_ne.mpr hroot⟩)

/-- The edges that are looked at from a root, as a forest. -/
def forestBelow (c : Catalog) (root : ObjectKey) : List (Tree (Visit Edge)) :=
  DepthFirst.forest c.outgoing (some ·.target) (c.expandable root) (c.outgoing root)

theorem exists_explored (c : Catalog) (root : ObjectKey) :
    ∃ rest, DepthFirst.Explored c.outgoing (some ·.target) (c.expandable root) (c.outgoing root)
      (c.forestBelow root) rest :=
  ⟨_, DepthFirst.explored_explore _ _ _ _⟩

theorem mem_looked_forestBelow {e : Edge} : e ∈ DepthFirst.looked (c.forestBelow root) ↔
    e ∈ c.edges ∧
      ReflTransGen (DepthFirst.Step c.outgoing (some ·.target)) root e.source := by
  have hpending : ∀ k, k ∉ c.expandable root → c.outgoing k ⊆ c.outgoing root := by
    intro k hk
    rcases eq_or_outgoing_eq_nil hk with rfl | hnil
    · exact List.Subset.refl _
    · exact hnil ▸ List.nil_subset _
  rw [forestBelow, ← DepthFirst.edgesFrom_eq_looked, DepthFirst.mem_edgesFrom_next_iff hpending]
  constructor
  · rintro ⟨k, hk, he⟩
    obtain ⟨hmem, rfl⟩ := mem_outgoing.mp he
    exact ⟨hmem, hk⟩
  · rintro ⟨hmem, hreach⟩
    exact ⟨e.source, hreach, mem_outgoing.mpr ⟨hmem, rfl⟩⟩

open Classical in
/-- The edges that are looked at are those of the catalog whose source can be reached, each as often
as the catalog lists it. -/
theorem looked_forestBelow_perm (c : Catalog) (root : ObjectKey) :
    (DepthFirst.looked (c.forestBelow root)).Perm
      (c.edges.filter fun e ↦
        ReflTransGen (DepthFirst.Step c.outgoing (some ·.target)) root e.source) := by
  obtain ⟨rest, hrun⟩ := c.exists_explored root
  obtain ⟨taken, htaken, hlooked⟩ := hrun.exists_taken nodup_expandable
  have hnodup : (root :: taken).Nodup := by
    have happend := htaken.nodup_iff.mp nodup_expandable
    refine List.nodup_cons.mpr ⟨fun hroot ↦ ?_, happend.sublist (List.sublist_append_left _ _)⟩
    have hmem := htaken.mem_iff.mpr (List.mem_append_left rest hroot)
    exact absurd rfl (bne_iff_ne.mp (List.mem_filter.mp hmem).2)
  -- the places taken and the root, each with the edges that the catalog lists for it
  have hplaces : (DepthFirst.looked (c.forestBelow root)).Perm
      (c.edges.filter (·.source ∈ root :: taken)) := by
    refine hlooked.trans ?_
    rw [← List.flatMap_cons]
    exact flatMap_filter_perm _ _ hnodup
  have hfilter : c.edges.filter (·.source ∈ root :: taken) = c.edges.filter fun e ↦
      ReflTransGen (DepthFirst.Step c.outgoing (some ·.target)) root e.source := by
    refine List.filter_congr fun e he ↦ decide_eq_decide.mpr ?_
    have hmem := hplaces.mem_iff (a := e)
    rw [mem_looked_forestBelow, List.mem_filter, decide_eq_true_iff] at hmem
    simpa only [he, true_and] using hmem.symm
  exact hfilter ▸ hplaces

/-! ## The tree -/

/-- The node for an edge that was looked at. -/
def nodeAt (level : Nat) (v : Visit Edge) : TreeNode := .ofDependency level v.edge.dependency

theorem exists_dependencyTree_eq (c : Catalog) (owner name : String) :
    ∃ kind, c.dependencyTree owner name =
      .node ⟨⟨owner, name, kind⟩, none, 0⟩
        (Tree.mapDepthAll nodeAt 1 (c.forestBelow (.ofNames owner name))) :=
  ⟨_, rfl⟩

theorem map_ofDependency_outgoing :
    ((ofDependencies ds).outgoing k).map (fun e ↦ TreeNode.ofDependency level e.dependency) =
      (ds.filter (·.source.key == k)).map (.ofDependency level) := by
  rw [← map_dependency_outgoing, List.map_map]
  rfl

theorem map_value_mapDepthAll_nodeAt (trees : List (Tree (Visit Edge))) :
    (Tree.mapDepthAll nodeAt level trees).map Tree.value =
      (trees.map DepthFirst.rootEdge).map
        fun e ↦ TreeNode.ofDependency level e.dependency := by
  rw [Tree.map_value_mapDepthAll, List.map_map]
  rfl

theorem step_outgoing : DepthFirst.Step (ofDependencies ds).outgoing (some ·.target) =
    Dependency.LeadsTo ds := by
  ext a b
  simp only [DepthFirst.Step, mem_outgoing, Option.some_inj, and_assoc]
  exact exists_mem_edges_iff

/-- A node of the tree stands for a node of the forest, at some level. -/
def StandsFor (t : Tree (Visit Edge)) (t' : DependencyTree) : Prop :=
  ∃ level, t' = t.mapDepth nodeAt level

theorem map_value_of_standsFor {γ : Type} (shown : TreeNode → γ) (shown' : Edge → γ)
    (h : ∀ level v, shown (nodeAt level v) = shown' v.edge) {trees : List (Tree (Visit Edge))}
    {trees' : List DependencyTree} (hall : List.Forall₂ StandsFor trees trees') :
    trees'.map (fun t ↦ shown t.value) = (trees.map DepthFirst.rootEdge).map shown' := by
  rw [List.map_map]
  refine (map_eq_map_of_forall₂ (fun t t' ⟨level, ht⟩ ↦ ?_) hall).symm
  rw [ht, Tree.value_mapDepth, h]
  rfl

/-- The nodes below the root show the dependencies within reach of it. -/
theorem map_label_perm (ds : List Dependency) (root : ObjectKey) :
    ((Tree.preorderAll (Tree.mapDepthAll nodeAt 1 ((ofDependencies ds).forestBelow root))).map
        TreeNode.label).Perm
      ((Dependency.reachedFrom ds root).map fun d ↦ (d.target, some d.strength)) := by
  have hshown := map_value_of_standsFor TreeNode.label
    (fun e ↦ (e.dependency.target, some e.dependency.strength)) (fun _ _ ↦ rfl)
    (Tree.forall₂_subtreesAll_mapDepthAll nodeAt 1 ((ofDependencies ds).forestBelow root))
  rw [DepthFirst.map_rootEdge_subtreesAll] at hshown
  have hperm := (looked_forestBelow_perm (ofDependencies ds) root).map
    fun e ↦ (e.dependency.target, some e.dependency.strength)
  rw [← hshown, step_outgoing, ofDependencies, List.filter_map, List.map_map] at hperm
  rw [← Tree.map_value_subtreesAll, List.map_map]
  exact hperm

theorem map_value_children_of_standsFor {t : Tree (Visit Edge)} {t' : DependencyTree}
    (h : StandsFor t t') : t'.children.map Tree.value =
      (t.children.map DepthFirst.rootEdge).map
        fun e ↦ TreeNode.ofDependency (t'.value.level + 1) e.dependency := by
  obtain ⟨level, rfl⟩ := h
  rw [Tree.children_mapDepth, map_value_mapDepthAll_nodeAt, Tree.value_mapDepth]
  rfl

theorem key_nodeAt (v : Visit Edge) : (nodeAt level v).object.key = v.edge.target :=
  v.edge.target_eq.symm

theorem key_of_standsFor {t : Tree (Visit Edge)} {t' : DependencyTree} (h : StandsFor t t') :
    t'.value.object.key = (DepthFirst.rootEdge t).target := by
  obtain ⟨level, rfl⟩ := h
  rw [Tree.value_mapDepth, key_nodeAt, DepthFirst.rootEdge]

/-- A node of the tree is its root, or it stands for a node of the forest, which the search has
opened or not by the nodes before it. -/
theorem eq_root_or_isOpenedAfter {owner name : String} {front back : List DependencyTree}
    {t' : DependencyTree} (h : (c.dependencyTree owner name).subtrees = front ++ t' :: back) :
    (front = [] ∧ t' = c.dependencyTree owner name) ∨
      ∃ t es, StandsFor t t' ∧
        front.map (·.value.object.key) = .ofNames owner name :: es.map (·.target) ∧
        DepthFirst.IsOpenedAfter c.outgoing (some ·.target) (c.expandable (.ofNames owner name))
          es t := by
  obtain ⟨kind, htree⟩ := c.exists_dependencyTree_eq owner name
  rw [htree, Tree.subtrees_node] at h
  rcases List.cons_eq_append_iff.mp h with ⟨rfl, hroot⟩ | ⟨front, rfl, hbelow⟩
  · exact Or.inl ⟨rfl, htree ▸ (List.cons_eq_cons.mp hroot).1⟩
  · have hall := Tree.forall₂_subtreesAll_mapDepthAll nodeAt 1
      (c.forestBelow (.ofNames owner name))
    rw [hbelow] at hall
    obtain ⟨before, t, behind, hsplit, hfront, ht⟩ := exists_split_of_forall₂ hall
    obtain ⟨rest, hrun⟩ := c.exists_explored (.ofNames owner name)
    refine Or.inr ⟨t, before.map DepthFirst.rootEdge, ht, ?_, hrun.isOpenedAfter hsplit⟩
    have hkeys := map_value_of_standsFor (·.object.key) (·.target) (fun _ ↦ key_nodeAt) hfront
    exact congrArg (.ofNames owner name :: ·) hkeys

theorem isExpansion_dependencyTree (ds : List Dependency) (owner name : String) :
    ((ofDependencies ds).dependencyTree owner name).IsExpansion ds where
  first front t' back h hkey := by
    rcases eq_root_or_isOpenedAfter h with ⟨-, rfl⟩ | ⟨t, es, ht, hkeys, hopened⟩
    · -- below the root stand the edges that the search starts from
      obtain ⟨kind, htree⟩ := (ofDependencies ds).exists_dependencyTree_eq owner name
      obtain ⟨rest, hrun⟩ := (ofDependencies ds).exists_explored (.ofNames owner name)
      rw [htree, Tree.children, map_value_mapDepthAll_nodeAt, hrun.map_rootEdge,
        map_ofDependency_outgoing]
      rfl
    · rw [hkeys, key_of_standsFor ht, List.mem_cons, not_or] at hkey
      have hnew : ∀ e ∈ es, some e.target ≠ some (DepthFirst.rootEdge t).target :=
        fun e he heq ↦ hkey.2 (List.mem_map.mpr ⟨e, he, Option.some_inj.mp heq⟩)
      have hbelow : t.children.map DepthFirst.rootEdge =
          (ofDependencies ds).outgoing (DepthFirst.rootEdge t).target := by
        by_cases hmem : (DepthFirst.rootEdge t).target ∈
            (ofDependencies ds).expandable (.ofNames owner name)
        · exact hopened.map_children _ rfl ⟨hmem, hnew⟩
        · -- an object without dependencies is not opened, and has nothing to show
          have hnil := (eq_or_outgoing_eq_nil hmem).resolve_left hkey.1
          rw [hnil, hopened.children_eq_nil fun k hk hremains ↦ ?_, List.map_nil]
          exact hmem (Option.some_inj.mp hk ▸ hremains.1)
      rw [map_value_children_of_standsFor ht, hbelow, map_ofDependency_outgoing,
        TreeNode.expansion, key_of_standsFor ht]
  again front t' back h hkey := by
    rcases eq_root_or_isOpenedAfter h with ⟨rfl, -⟩ | ⟨t, es, ht, hkeys, hopened⟩
    · exact absurd hkey List.not_mem_nil
    · rw [hkeys, key_of_standsFor ht, List.mem_cons, List.mem_map] at hkey
      have hnil : t.children = [] := by
        refine hopened.children_eq_nil fun k hk hremains ↦ ?_
        obtain rfl := Option.some_inj.mp hk
        -- the root is never expandable, and any other object does not remain after its first node
        rcases hkey with hroot | ⟨e, he, heq⟩
        · exact absurd hroot (bne_iff_ne.mp (List.mem_filter.mp hremains.1).2)
        · exact hremains.2 e he (congrArg some heq)
      have hbelow := map_value_children_of_standsFor ht
      rw [hnil, List.map_nil, List.map_nil, List.map_eq_nil_iff] at hbelow
      exact hbelow

theorem depth_dependencyTree (c : Catalog) (owner name : String) :
    (c.dependencyTree owner name).depth = (c.dependencyTree owner name).height := by
  obtain ⟨kind, htree⟩ := c.exists_dependencyTree_eq owner name
  have hlevel : ∀ level v, (nodeAt level v).level = level := fun _ _ ↦ rfl
  have hlevels := Tree.foldl_max_preorderAll hlevel (Nat.zero_le 0)
    (c.forestBelow (.ofNames owner name))
  rw [htree, DependencyTree.depth, Tree.preorder_node, List.map_cons, List.foldl_cons, Nat.max_self,
    Tree.height_node, Tree.heightAll_mapDepthAll]
  rw [hlevels, Nat.zero_add, Nat.zero_max]

/-- **A dependency tree shows every dependency within reach once.** The nodes below the root are
those of the dependencies whose source can be reached from it, each shown with its target and its
strength, so there is one node more than there are such dependencies. The first node of every object
has all dependencies of the object below it, in the order of the catalog, and every later one is a
leaf. The root is at level 0, a node one level below the one that it stands under, and the depth of
the tree is its height. -/
theorem dependencyTree_shows_reached (ds : List Dependency) (owner name : String) :
    let tree := (ofDependencies ds).dependencyTree owner name
    let reached := Dependency.reachedFrom ds (.ofNames owner name)
    (∃ kind nodes, tree.preorder = ⟨⟨owner, name, kind⟩, none, 0⟩ :: nodes ∧
      (nodes.map TreeNode.label).Perm (reached.map fun d ↦ (d.target, some d.strength))) ∧
    tree.size = 1 + reached.length ∧
    tree.subtrees.map Tree.value = tree.preorder ∧
    tree.IsExpansion ds ∧
    (∀ t ∈ tree.subtrees, ∀ u ∈ t.children, u.value.level = t.value.level + 1) ∧
    tree.depth = tree.height := by
  have hexpansion := isExpansion_dependencyTree ds owner name
  obtain ⟨kind, htree⟩ := (ofDependencies ds).exists_dependencyTree_eq owner name
  have hnodes := map_label_perm ds (.ofNames owner name)
  refine ⟨⟨kind, _, by rw [htree, Tree.preorder_node], hnodes⟩, ?_, Tree.map_value_subtrees _,
    hexpansion, fun t ht u hu ↦ hexpansion.level_eq ht hu, depth_dependencyTree _ _ _⟩
  have hlength := hnodes.length_eq
  rw [List.length_map, List.length_map] at hlength
  rw [htree, DependencyTree.size, Tree.preorder_node, List.length_cons, hlength, Nat.add_comm]

end Catalog

end Lineage
