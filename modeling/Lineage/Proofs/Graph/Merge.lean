import Lineage.Command.Run
import Lineage.Proofs.Lists
import Lineage.Proofs.Object.Naming

/-!
# Merging graphs

A graph is made from a list of dependencies and then takes in other graphs, one after the other.
What comes of it is said once for the whole run: the objects are those of all parts, each as it was
first met, and the dependencies are those of all parts, none left out. The other graphs may be in
any state. Repeats among their objects are dropped, and what their objects record of dependencies
does not matter, since it is worked out anew from the dependencies of all parts.

A graph is *consistent* when its objects differ in key or kind and record just the dependencies that
they take part in. To be compared before and after a merge, an object is looked at without what it
records: `bare`. A merge then only adds objects at the end, whatever graphs are merged, and keeps a
consistent graph consistent.

Nor does it matter in which groups graphs are merged. That needs no consistency: what a merge adds
is `addDistinct` of the bare objects, which is associative, and everything else is worked out anew.
-/

namespace Lineage

/-- An object without the dependencies that it records. -/
def CatalogObject.bare (o : CatalogObject) : CatalogObject :=
  { o with dependencies := [], referencedBy := [] }

namespace DependencyGraph

variable {g : DependencyGraph} {o : CatalogObject}

/-! ## What objects record -/

/-- Whether the objects of a graph differ in key or kind and record, in order, the dependencies that
they take part in. -/
structure IsConsistent (g : DependencyGraph) : Prop where
  nodup : (g.objects.map (·.identity)).Nodup
  dependencies_eq : ∀ o ∈ g.objects, o.dependencies = g.dependencies.filter (·.source.key == o.key)
  referencedBy_eq : ∀ o ∈ g.objects, o.referencedBy = g.dependencies.filter (·.target.key == o.key)

theorem dependencies_indexed (ds : List Dependency) (o : CatalogObject) :
    (indexed (.ofDependencies ds) o).dependencies = ds.filter (·.source.key == o.key) := by
  have hfilter : (Catalog.ofDependencies ds).outgoing o.key =
      (ds.filter (·.source.key == o.key)).map .ofDependency := List.filter_map
  rw [indexed, hfilter, List.map_map]
  exact List.map_id _

theorem referencedBy_indexed (ds : List Dependency) (o : CatalogObject) :
    (indexed (.ofDependencies ds) o).referencedBy = ds.filter (·.target.key == o.key) := by
  have hfilter : (Catalog.ofDependencies ds).incoming o.key =
      (ds.filter (·.target.key == o.key)).map .ofDependency := List.filter_map
  rw [indexed, hfilter, List.map_map]
  exact List.map_id _

@[simp] theorem map_bare_objects_reindex (g : DependencyGraph) :
    g.reindex.objects.map CatalogObject.bare = g.objects.map CatalogObject.bare := by
  rw [reindex, List.map_map]
  rfl

theorem map_identity_objects_eq (g : DependencyGraph) :
    g.objects.map (·.identity) = (g.objects.map CatalogObject.bare).map (·.identity) := by
  rw [List.map_map]
  rfl

@[simp] theorem map_identity_objects_reindex (g : DependencyGraph) :
    g.reindex.objects.map (·.identity) = g.objects.map (·.identity) := by
  rw [map_identity_objects_eq, map_bare_objects_reindex, ← map_identity_objects_eq]

theorem isConsistent_reindex (hnodup : (g.objects.map (·.identity)).Nodup) :
    g.reindex.IsConsistent where
  nodup := by rwa [map_identity_objects_reindex]
  dependencies_eq o ho := by
    obtain ⟨o', -, rfl⟩ := List.mem_map.mp ho
    exact dependencies_indexed g.dependencies o'
  referencedBy_eq o ho := by
    obtain ⟨o', -, rfl⟩ := List.mem_map.mp ho
    exact referencedBy_indexed g.dependencies o'

/-! ## The graph of some dependencies -/

/-- The ends of some dependencies as objects of which nothing but the naming is known. -/
def endsOf (ds : List Dependency) : List CatalogObject := (namings ds).map .ofRef

theorem map_bare_objects_ofDependencies (ds : List Dependency) :
    (ofDependencies ds).objects.map CatalogObject.bare = distinctBy (·.identity) (endsOf ds) := by
  rw [ofDependencies, map_bare_objects_reindex, List.map_map, endsOf, ← map_distinctBy]
  rfl

theorem isConsistent_ofDependencies (ds : List Dependency) : (ofDependencies ds).IsConsistent := by
  refine isConsistent_reindex ?_
  rw [List.map_map]
  exact nodup_map_distinctBy ObjectRef.identity (namings ds)

/-! ## One merge -/

/-- The objects that another graph adds to a graph: the first of each key and kind, if the graph has
none of it. -/
def newObjects (g other : DependencyGraph) : List CatalogObject :=
  (distinctBy (·.identity) other.objects).filter fun o ↦ !g.contains o.key o.kind

theorem merge_eq (g other : DependencyGraph) :
    g.merge other =
      reindex ⟨g.objects ++ g.newObjects other, g.dependencies ++ other.dependencies⟩ := rfl

theorem contains_iff :
    g.contains o.key o.kind = true ↔ o.identity ∈ g.objects.map (·.identity) := by
  simp only [contains, List.any_eq_true, Bool.and_eq_true, decide_eq_true_eq, beq_iff_eq,
    List.mem_map]
  constructor
  · rintro ⟨o', ho', hkind, hkey⟩
    exact ⟨o', ho', Prod.ext hkey hkind⟩
  · rintro ⟨o', ho', heq⟩
    obtain ⟨hkey, hkind⟩ := Prod.mk.inj heq
    exact ⟨o', ho', hkind, hkey⟩

theorem objects_append_newObjects_eq (g other : DependencyGraph) :
    g.objects ++ g.newObjects other = addDistinct (·.identity) g.objects other.objects := by
  rw [newObjects, addDistinct]
  refine congrArg (g.objects ++ ·) (List.filter_congr fun o _ ↦ ?_)
  rw [Bool.eq_iff_iff, Bool.not_eq_true', ← Bool.not_eq_true, contains_iff]
  simp only [decide_eq_true_eq]

/-- In a graph without repeats the objects after a merge are those of both graphs, each once. -/
theorem objects_append_newObjects (hnodup : (g.objects.map (·.identity)).Nodup)
    (other : DependencyGraph) :
    g.objects ++ g.newObjects other =
      distinctBy (·.identity) (g.objects ++ other.objects) := by
  rw [objects_append_newObjects_eq, distinctBy_append, distinctBy_of_nodup hnodup, addDistinct]

/-- Whatever a graph takes in, its own objects stay first and change at most in what they record. -/
theorem prefix_objects_merge (g other : DependencyGraph) :
    g.objects.map CatalogObject.bare <+: (g.merge other).objects.map CatalogObject.bare := by
  rw [merge_eq, map_bare_objects_reindex, List.map_append]
  exact List.prefix_append _ _

theorem dependencies_merge (g other : DependencyGraph) :
    (g.merge other).dependencies = g.dependencies ++ other.dependencies := rfl

theorem map_bare_objects_merge (hnodup : (g.objects.map (·.identity)).Nodup)
    (other : DependencyGraph) :
    (g.merge other).objects.map CatalogObject.bare =
      distinctBy (·.identity) ((g.objects ++ other.objects).map CatalogObject.bare) := by
  rw [merge_eq, map_bare_objects_reindex, objects_append_newObjects hnodup, ← map_distinctBy]
  rfl

theorem isConsistent_merge (hnodup : (g.objects.map (·.identity)).Nodup)
    (other : DependencyGraph) : (g.merge other).IsConsistent := by
  rw [merge_eq, objects_append_newObjects hnodup]
  exact isConsistent_reindex (nodup_map_distinctBy _ _)

theorem isConsistent_graph (s : Snapshot) : s.graph.IsConsistent :=
  isConsistent_merge (isConsistent_ofDependencies s.dependencies).nodup _

/-! ## Merges in groups -/

/-- What objects recorded before does not matter when it is worked out anew. -/
theorem reindex_congr {h : DependencyGraph}
    (hobjects : g.objects.map CatalogObject.bare = h.objects.map CatalogObject.bare)
    (hdependencies : g.dependencies = h.dependencies) : g.reindex = h.reindex := by
  have hbare : ∀ k : DependencyGraph, k.reindex =
      ⟨(k.objects.map CatalogObject.bare).map (indexed k.catalog), k.dependencies⟩ := by
    intro k
    rw [List.map_map]
    rfl
  rw [hbare g, hbare h, hobjects, catalog, catalog, hdependencies]

theorem reindex_reindex (g : DependencyGraph) : g.reindex.reindex = g.reindex :=
  reindex_congr (map_bare_objects_reindex g) rfl

/-- The objects after a merge, whatever repeats there are in either graph. -/
theorem map_bare_objects_merge_eq (g other : DependencyGraph) :
    (g.merge other).objects.map CatalogObject.bare =
      addDistinct (·.identity) (g.objects.map CatalogObject.bare)
        (other.objects.map CatalogObject.bare) := by
  rw [merge_eq, map_bare_objects_reindex, objects_append_newObjects_eq, ← map_addDistinct]
  rfl

theorem eq_of_map_bare_objects_eq {a b c d : DependencyGraph}
    (hobjects : (a.merge b).objects.map CatalogObject.bare =
      (c.merge d).objects.map CatalogObject.bare)
    (hdependencies : (a.merge b).dependencies = (c.merge d).dependencies) :
    a.merge b = c.merge d := by
  have hmerged : ∀ g other : DependencyGraph, (g.merge other).reindex = g.merge other :=
    fun g other ↦ reindex_reindex ⟨g.objects ++ g.newObjects other, _⟩
  rw [← hmerged a, reindex_congr hobjects hdependencies, hmerged c]

/-- **Merges in groups.** A graph takes in a second one and then a third, or it takes in the second
after that has taken in the third: the graph is the same, in the objects, their order, what they
record and the dependencies. Any of the three may hold repeats and outdated records. -/
theorem merge_assoc (a b c : DependencyGraph) : (a.merge b).merge c = a.merge (b.merge c) := by
  refine eq_of_map_bare_objects_eq ?_ ?_
  · simp only [map_bare_objects_merge_eq]
    exact addDistinct_assoc _ _ _ _
  · simp only [dependencies_merge]
    exact List.append_assoc _ _ _

/-! ## Any number of merges -/

/-- A graph that takes in others, one after the other. -/
def mergeAll (g : DependencyGraph) (others : List DependencyGraph) : DependencyGraph :=
  others.foldl merge g

theorem mergeAll_cons (g other : DependencyGraph) (others : List DependencyGraph) :
    g.mergeAll (other :: others) = (g.merge other).mergeAll others := rfl

theorem mergeAll_append (g : DependencyGraph) (others more : List DependencyGraph) :
    g.mergeAll (others ++ more) = (g.mergeAll others).mergeAll more := List.foldl_append

theorem prefix_objects_mergeAll (g : DependencyGraph) (others : List DependencyGraph) :
    g.objects.map CatalogObject.bare <+: (g.mergeAll others).objects.map CatalogObject.bare := by
  induction others generalizing g with
  | nil => exact List.prefix_refl _
  | cons other others ih => exact (prefix_objects_merge g other).trans (ih (g.merge other))

theorem dependencies_mergeAll (g : DependencyGraph) (others : List DependencyGraph) :
    (g.mergeAll others).dependencies = g.dependencies ++ others.flatMap (·.dependencies) := by
  induction others generalizing g with
  | nil => simp [mergeAll]
  | cons other others ih =>
    rw [mergeAll_cons, ih, dependencies_merge, List.flatMap_cons, List.append_assoc]

theorem IsConsistent.mergeAll (h : g.IsConsistent) (others : List DependencyGraph) :
    (g.mergeAll others).IsConsistent := by
  induction others generalizing g with
  | nil => exact h
  | cons other others ih => exact ih (isConsistent_merge h.nodup other)

theorem map_bare_objects_mergeAll (h : g.IsConsistent) (others : List DependencyGraph) :
    (g.mergeAll others).objects.map CatalogObject.bare =
      distinctBy (·.identity)
        ((g.objects ++ others.flatMap (·.objects)).map CatalogObject.bare) := by
  induction others generalizing g with
  | nil =>
    have hnodup : ((g.objects.map CatalogObject.bare).map (·.identity)).Nodup := by
      rw [← map_identity_objects_eq]
      exact h.nodup
    rw [List.flatMap_nil, List.append_nil, distinctBy_of_nodup hnodup]
    rfl
  | cons other others ih =>
    rw [mergeAll_cons, ih (isConsistent_merge h.nodup other), List.map_append,
      map_bare_objects_merge h.nodup, distinctBy_distinctBy_append, ← List.map_append,
      List.append_assoc, List.flatMap_cons]

theorem mem_identities_mergeAll_iff (h : g.IsConsistent) (others : List DependencyGraph)
    (e : ObjectKey × ObjectKind) :
    e ∈ (g.mergeAll others).objects.map (·.identity) ↔
      e ∈ g.objects.map (·.identity) ∨ ∃ other ∈ others, e ∈ other.objects.map (·.identity) := by
  have hall : e ∈ (g.mergeAll others).objects.map (·.identity) ↔
      e ∈ (g.objects ++ others.flatMap (·.objects)).map (·.identity) := by
    rw [map_identity_objects_eq, map_bare_objects_mergeAll h, mem_map_distinctBy, List.map_map]
    rfl
  rw [hall, List.map_append, List.mem_append, List.map_flatMap, List.mem_flatMap]

theorem mem_identities_ofDependencies_iff (ds : List Dependency) (e : ObjectKey × ObjectKind) :
    e ∈ (ofDependencies ds).objects.map (·.identity) ↔
      ∃ d ∈ ds, e = d.source.identity ∨ e = d.target.identity := by
  have hall : e ∈ (ofDependencies ds).objects.map (·.identity) ↔
      e ∈ (namings ds).map ObjectRef.identity := by
    rw [map_identity_objects_eq, map_bare_objects_ofDependencies, mem_map_distinctBy, endsOf,
      List.map_map]
    rfl
  rw [hall, namings, List.map_flatMap, List.mem_flatMap]
  simp only [List.map_cons, List.map_nil, List.mem_cons, List.not_mem_nil, or_false]

/-- **Merging.** A graph that is made from dependencies and takes in any other graphs is consistent.
Its objects are the ends of those dependencies and the objects of the other graphs, its dependencies
are those of all parts in order, and whatever more it takes in, the objects that it has stay first
and change at most in what they record. -/
theorem mergeAll_ofDependencies (ds : List Dependency) (others : List DependencyGraph) :
    ((ofDependencies ds).mergeAll others).IsConsistent ∧
      (∀ e : ObjectKey × ObjectKind,
        e ∈ ((ofDependencies ds).mergeAll others).objects.map (·.identity) ↔
          (∃ d ∈ ds, e = d.source.identity ∨ e = d.target.identity) ∨
            ∃ other ∈ others, e ∈ other.objects.map (·.identity)) ∧
      ((ofDependencies ds).mergeAll others).dependencies =
        ds ++ others.flatMap (·.dependencies) ∧
      ∀ more : List DependencyGraph,
        ((ofDependencies ds).mergeAll others).objects.map CatalogObject.bare <+:
          ((ofDependencies ds).mergeAll (others ++ more)).objects.map CatalogObject.bare := by
  have hbase := isConsistent_ofDependencies ds
  refine ⟨hbase.mergeAll others, fun e ↦ ?_, dependencies_mergeAll _ others, fun more ↦ ?_⟩
  · rw [mem_identities_mergeAll_iff hbase, mem_identities_ofDependencies_iff]
  · rw [mergeAll_append]
    exact prefix_objects_mergeAll _ more

end DependencyGraph

end Lineage
