import Lineage.Distinct
import Lineage.Object.Dependency

/-!
# Catalogs

A catalog answers what an object depends on and what depends on it. It knows objects only by the
dependencies in which they occur, so an object without any is not an error: nothing is found for
it. The keys of both ends of a dependency are worked out once, when the catalog is made.
-/

namespace Lineage

/-- A dependency with the keys of its two ends. -/
structure Edge where
  dependency : Dependency
  source : ObjectKey
  target : ObjectKey
  source_eq : source = dependency.source.key
  target_eq : target = dependency.target.key

namespace Edge

/-- A dependency with its keys. -/
def ofDependency (d : Dependency) : Edge := ⟨d, d.source.key, d.target.key, rfl, rfl⟩

/-- The kind of the object that depends. -/
def sourceKind (e : Edge) : ObjectKind := e.dependency.source.kind

/-- The kind of the object that is needed. -/
def targetKind (e : Edge) : ObjectKind := e.dependency.target.kind

end Edge

/-- The dependencies that a catalog lists, in its order. -/
structure Catalog where
  edges : List Edge

namespace Catalog

/-- The catalog that lists some dependencies. -/
def ofDependencies (ds : List Dependency) : Catalog := ⟨ds.map Edge.ofDependency⟩

/-- The dependencies of an object. -/
def outgoing (c : Catalog) (key : ObjectKey) : List Edge := c.edges.filter (·.source == key)

/-- The dependencies on an object. -/
def incoming (c : Catalog) (key : ObjectKey) : List Edge := c.edges.filter (·.target == key)

/-- The objects that depend on something, by first occurrence. -/
def sources (c : Catalog) : List ObjectKey := distinctBy id (c.edges.map (·.source))

/-- The objects that something depends on, by first occurrence. -/
def targets (c : Catalog) : List ObjectKey := distinctBy id (c.edges.map (·.target))

/-- The number of objects that depend on something. -/
def objectCount (c : Catalog) : Nat := c.sources.length

variable {c : Catalog} {key : ObjectKey}

theorem mem_outgoing {e : Edge} : e ∈ c.outgoing key ↔ e ∈ c.edges ∧ e.source = key := by
  simp [outgoing]

theorem mem_incoming {e : Edge} : e ∈ c.incoming key ↔ e ∈ c.edges ∧ e.target = key := by
  simp [incoming]

theorem mem_sources : key ∈ c.sources ↔ ∃ e ∈ c.edges, e.source = key := by
  have h : key ∈ (distinctBy id (c.edges.map (·.source))).map id ↔ _ := mem_map_distinctBy
  simpa [sources] using h

theorem mem_targets : key ∈ c.targets ↔ ∃ e ∈ c.edges, e.target = key := by
  have h : key ∈ (distinctBy id (c.edges.map (·.target))).map id ↔ _ := mem_map_distinctBy
  simpa [targets] using h

theorem outgoing_eq_nil (h : key ∉ c.sources) : c.outgoing key = [] :=
  List.eq_nil_iff_forall_not_mem.2 fun e he => h (mem_sources.2 ⟨e, mem_outgoing.1 he⟩)

theorem incoming_eq_nil (h : key ∉ c.targets) : c.incoming key = [] :=
  List.eq_nil_iff_forall_not_mem.2 fun e he => h (mem_targets.2 ⟨e, mem_incoming.1 he⟩)

/-! The catalog of some dependencies is spoken of in terms of the dependencies. -/

variable {ds : List Dependency}

theorem exists_mem_edges_iff {P : Edge → Prop} :
    (∃ e ∈ (ofDependencies ds).edges, P e) ↔ ∃ d ∈ ds, P (.ofDependency d) := by
  constructor
  · rintro ⟨_, he, hP⟩
    obtain ⟨d, hd, rfl⟩ := List.mem_map.1 he
    exact ⟨d, hd, hP⟩
  · rintro ⟨d, hd, hP⟩
    exact ⟨_, List.mem_map_of_mem hd, hP⟩

/-- Edges that are those of some kind stand for the dependencies of that kind. -/
theorem mem_map_dependency_iff {es : List Edge} {P : Edge → Prop}
    (h : ∀ e, e ∈ es ↔ e ∈ (ofDependencies ds).edges ∧ P e) {d : Dependency} :
    d ∈ es.map (·.dependency) ↔ d ∈ ds ∧ P (.ofDependency d) := by
  simp only [List.mem_map, h, ofDependencies]
  constructor
  · rintro ⟨_, ⟨⟨d, hd, rfl⟩, hP⟩, rfl⟩
    exact ⟨hd, hP⟩
  · rintro ⟨hd, hP⟩
    exact ⟨_, ⟨⟨d, hd, rfl⟩, hP⟩, rfl⟩

theorem map_dependency_outgoing :
    ((ofDependencies ds).outgoing key).map (·.dependency) = ds.filter (·.source.key == key) := by
  rw [outgoing, ofDependencies, List.filter_map, List.map_map]
  exact List.map_id _

end Catalog

end Lineage
