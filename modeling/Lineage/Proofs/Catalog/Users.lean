import Lineage.Proofs.Catalog.Search

/-!
# The users of a table

Who uses a table is found by going back from it, and the search goes on at views only. Seen from the
user, a chain of dependencies leads to the table: the first is that of a program unit, and every
further one that of a view. An object may be recorded with several kinds, and what counts for a
dependency is the kind that it gives to its own source; so one object may begin a chain with one of
its dependencies and be passed through with another.

The users are given by name, one for each object that begins a chain. The name is the one in a
dependency that begins one.
-/

open Relation

namespace Lineage

namespace Dependency

/-- Whether a dependency of a view leads from one object to another. -/
def ViewLeadsTo (ds : List Dependency) (a b : ObjectKey) : Prop :=
  ∃ d ∈ ds, d.source.key = a ∧ d.target.key = b ∧ d.source.kind = .view

/-- Whether a dependency is the first of a chain that ends at an object. It is one of a program
unit, and those that follow it are dependencies of views. -/
structure BeginsUse (ds : List Dependency) (used : ObjectKey) (d : Dependency) : Prop where
  mem : d ∈ ds
  isProgramUnit : d.source.kind.isProgramUnit = true
  leads : ReflTransGen (ViewLeadsTo ds) d.target.key used

end Dependency

namespace Catalog

variable {ds : List Dependency} {used : ObjectKey} {d : Dependency}

theorem leadsToView_backward_eq_swap :
    LeadsToView backward (ofDependencies ds) = Function.swap (Dependency.ViewLeadsTo ds) :=
  funext₂ fun _ _ ↦ propext <| exists_mem_edges_iff.trans <|
    exists_congr fun _ ↦ and_congr_right fun _ ↦ and_left_comm

/-- To go back through views from an object is to come to it through views. -/
theorem reflTransGen_backward_iff {a b : ObjectKey} :
    ReflTransGen (LeadsToView backward (ofDependencies ds)) a b ↔
      ReflTransGen (Dependency.ViewLeadsTo ds) b a := by
  rw [leadsToView_backward_eq_swap, reflTransGen_swap]

/-- The edges from program units that the search from an object finds. -/
def unitEdgesTo (c : Catalog) (used : ObjectKey) : List Edge :=
  (c.edgesTo used).filter (·.sourceKind.isProgramUnit)

theorem mem_unitEdgesTo_iff {e : Edge} : e ∈ (ofDependencies ds).unitEdgesTo used ↔
    e ∈ (ofDependencies ds).edges ∧ ReflTransGen (Dependency.ViewLeadsTo ds) e.target used ∧
      e.sourceKind.isProgramUnit = true := by
  rw [unitEdgesTo, List.mem_filter, mem_edgesTo_iff, reflTransGen_backward_iff, and_assoc]

theorem mem_map_unitEdgesTo :
    d ∈ ((ofDependencies ds).unitEdgesTo used).map (·.dependency) ↔
      Dependency.BeginsUse ds used d := by
  rw [mem_map_dependency_iff fun _ ↦ mem_unitEdgesTo_iff]
  constructor
  · rintro ⟨hmem, hleads, hunit⟩
    exact ⟨hmem, hunit, hleads⟩
  · rintro ⟨hmem, hunit, hleads⟩
    exact ⟨hmem, hleads, hunit⟩

/-- **Users begin chains.** The users of a table are named by dependencies of different objects,
each of which begins a chain to the table; and every object with such a dependency is among them. -/
theorem users_begin_chains (ds : List Dependency) (owner table : String) :
    ∃ firsts : List Dependency,
      (ofDependencies ds).users owner table = firsts.map (·.source.fullName) ∧
      (firsts.map (·.source.key)).Nodup ∧
      (∀ d ∈ firsts, Dependency.BeginsUse ds (.ofNames owner table) d) ∧
      ∀ k, k ∈ firsts.map (·.source.key) ↔
        ∃ d, Dependency.BeginsUse ds (.ofNames owner table) d ∧ d.source.key = k := by
  let found := (ofDependencies ds).unitEdgesTo (.ofNames owner table)
  have hkeys : ((distinctBy Edge.source found).map (·.dependency)).map (·.source.key) =
      (distinctBy Edge.source found).map Edge.source := by
    rw [List.map_map]
    exact List.map_congr_left fun e _ ↦ e.source_eq.symm
  refine ⟨(distinctBy Edge.source found).map (·.dependency), ?_, ?_, fun d hd ↦ ?_, fun k ↦ ?_⟩
  · rw [List.map_map]
    rfl
  · rw [hkeys]
    exact nodup_map_distinctBy _ _
  · exact mem_map_unitEdgesTo.mp (((distinctBy_sublist _ _).map _).subset hd)
  · rw [hkeys, mem_map_distinctBy]
    simp only [← mem_map_unitEdgesTo, List.mem_map, exists_exists_and_eq_and, Edge.source_eq]
    rfl

end Catalog

end Lineage
