import Lineage.Catalog.Expansion
import Lineage.Catalog.Footprint
import Lineage.Catalog.Users
import Lineage.Graph.Cycle
import Lineage.Proofs.Lists
import Lineage.Proofs.Traversal.Frames

/-!
# The cost of following dependencies

Whatever follows dependencies as far as they go is a depth-first search, and is carried out by a
loop over frames. So it ends on any dependencies, objects that depend on themselves or on one
another included, and its cost is bounded by what there is to see: one round for every dependency
and one for every frame, of which there is at most one for an object.

What the bound rests on is the same for all four searches. A frame holds the edges that a catalog
lists for one object, the objects are different, and so the frames together hold every edge at most
once (`flatMap_outgoing_subperm`, `flatMap_incoming_subperm`, `flatMap_successors_subperm`). The
first three searches start from one object. The search for cycles starts from every object of the
graph and shares what it visited, and it is the sum over all of its loops that keeps to the bound.
-/

namespace Lineage

open DepthFirst (EndsWithin GoTogether Walk)

namespace Catalog

variable {c : Catalog} {key : ObjectKey} {keys : List ObjectKey}

/-! ## The edges of different objects -/

theorem flatMap_outgoing_subperm (hnodup : keys.Nodup) :
    (keys.flatMap c.outgoing).Subperm c.edges :=
  (flatMap_filter_perm Edge.source c.edges hnodup).subperm.trans List.filter_sublist.subperm

theorem flatMap_incoming_subperm (hnodup : keys.Nodup) :
    (keys.flatMap c.incoming).Subperm c.edges :=
  (flatMap_filter_perm Edge.target c.edges hnodup).subperm.trans List.filter_sublist.subperm

/-! ## The objects that a search may open -/

theorem goTogether_outgoing (c : Catalog) (key : ObjectKey) :
    GoTogether c.outgoing (c.sources.filter (· != key)) [key] where
  not_mem k hk := by simpa using (List.mem_filter.mp hk).2
  next_eq_nil k hk hpending := outgoing_eq_nil fun hsource ↦
    hpending (List.mem_filter.mpr ⟨hsource, by simpa using hk⟩)

theorem goTogether_incoming (c : Catalog) (key : ObjectKey) :
    GoTogether c.incoming (c.targets.filter (· != key)) [key] where
  not_mem k hk := by simpa using (List.mem_filter.mp hk).2
  next_eq_nil k hk hpending := incoming_eq_nil fun htarget ↦
    hpending (List.mem_filter.mpr ⟨htarget, by simpa using hk⟩)

/-! ## The loops -/

/-- The start of a loop at an object. -/
def loopFrom (next : ObjectKey → List Edge) (key : ObjectKey) : Walk ObjectKey Edge :=
  .enter next .idle none key

/-- The edges that a loop scanned. -/
def scannedEdges (t : Walk ObjectKey Edge) : List Edge := t.scanned.map (·.2)

/-- The tables behind a view are those that a loop over the edges behind it scans. -/
theorem exists_loop_tablesBehind (c : Catalog) (key : ObjectKey) :
    ∃ n t, Walk.Takes c.outgoing viewTarget n (loopFrom c.outgoing key) t ∧
      EndsWithin c.edges 1 n t ∧
      c.tablesBehind key = distinctBy Text.asciiFolded
        (((scannedEdges t).filter (·.targetKind = .table)).map (·.dependency.target.fullName)) := by
  have hrun := DepthFirst.explored_explore c.outgoing viewTarget (c.sources.filter (· != key))
    (c.outgoing key)
  obtain ⟨n, t, htakes, hends, -, hscanned⟩ :=
    hrun.exists_endsWithin (goTogether_outgoing c key) fun _ ↦ flatMap_outgoing_subperm
  refine ⟨n, t, htakes, hends, ?_⟩
  rw [scannedEdges, hscanned, DepthFirst.map_snd_scans]
  rfl

theorem exists_loop_dependencyTree (c : Catalog) (owner name : String) :
    ∃ n t, Walk.Takes c.outgoing (some ·.target) n
        (loopFrom c.outgoing (.ofNames owner name)) t ∧
      EndsWithin c.edges 1 n t ∧
      (c.dependencyTree owner name).children =
        Tree.mapDepthAll (fun level e ↦ TreeNode.ofDependency level e.dependency) 1 t.finished := by
  have hrun := DepthFirst.explored_explore c.outgoing (some ·.target)
    (c.sources.filter (· != .ofNames owner name)) (c.outgoing (.ofNames owner name))
  obtain ⟨n, t, htakes, hends, hfinished, -⟩ :=
    hrun.exists_endsWithin (goTogether_outgoing c _) fun _ ↦ flatMap_outgoing_subperm
  refine ⟨n, t, htakes, hends, ?_⟩
  rw [hfinished, DepthFirst.mapDepthAll_edgeTrees]
  rfl

theorem exists_loop_users (c : Catalog) (owner name : String) :
    ∃ n t, Walk.Takes c.incoming viewSource n (loopFrom c.incoming (.ofNames owner name)) t ∧
      EndsWithin c.edges 1 n t ∧
      c.users owner name =
        (distinctBy (·.source) ((scannedEdges t).filter (·.sourceKind.isProgramUnit))).map
          (·.dependency.source.fullName) := by
  have hrun := DepthFirst.explored_explore c.incoming viewSource
    (c.targets.filter (· != .ofNames owner name)) (c.incoming (.ofNames owner name))
  obtain ⟨n, t, htakes, hends, -, hscanned⟩ :=
    hrun.exists_endsWithin (goTogether_incoming c _) fun _ ↦ flatMap_incoming_subperm
  refine ⟨n, t, htakes, hends, ?_⟩
  rw [scannedEdges, hscanned, DepthFirst.map_snd_scans]
  rfl

end Catalog

namespace DependencyGraph

variable {keys : List ObjectKey}

/-- The keys that the dependencies that count for cycles lead to, in order. -/
def adjacent (c : Catalog) : List ObjectKey := (c.edges.filter countsForCycles).map (·.target)

theorem flatMap_successors_subperm (c : Catalog) (hnodup : keys.Nodup) :
    (keys.flatMap (successors c)).Subperm (adjacent c) := by
  have hnext : successors c = fun key ↦
      (((c.edges.filter countsForCycles).filter (·.source == key)).map (·.target)) := by
    ext1 key
    rw [successors, Catalog.outgoing, List.filter_comm]
  rw [hnext, ← List.map_flatMap]
  have hperm := flatMap_filter_perm Edge.source (c.edges.filter countsForCycles) hnodup
  exact (hperm.map _).subperm.trans (List.filter_sublist.map _).subperm

theorem goTogether_successors (c : Catalog) : GoTogether (successors c) c.sources [] where
  not_mem k _ := List.not_mem_nil
  next_eq_nil k _ hpending := by
    rw [successors, Catalog.outgoing_eq_nil hpending, List.filter_nil, List.map_nil]

theorem exists_loops_cycles (g : DependencyGraph) :
    ∃ n t, Walk.Sweeps (successors g.catalog) some some n (g.objects.map (·.key)) .idle t ∧
      EndsWithin (adjacent g.catalog) g.objects.length n t ∧
      g.cycles = t.scanned.flatMap fun p ↦ closedCycle p.1 p.2 := by
  have hrun := DepthFirst.explored_explore (successors g.catalog) some g.catalog.sources
    (g.objects.map (·.key))
  have hclosed : ∀ k, closedCycle [] k = [] := fun k ↦ rfl
  obtain ⟨n, t, hsweep, hframes, hcollected⟩ :=
    hrun.exists_sweeps (s := .idle) rfl (goTogether_successors g.catalog) hclosed
  have hbalance := Walk.IsBalanced.idle.sweeps hsweep
  rw [Nat.zero_add, Nat.zero_add, List.length_map] at hbalance
  exact ⟨n, t, hsweep, hbalance.endsWithin hframes fun _ ↦ flatMap_successors_subperm _,
    hcollected.symm⟩

end DependencyGraph

open Catalog DependencyGraph in
/-- **Following dependencies ends within a linear budget.** On any dependencies and from any object,
the loops that look behind a view, draw the tree of an object and look for the users of a table come
to their end; each takes at most one round for every dependency and one for every frame, opens at
most one frame for an object, scans no dependency twice, and finds what is to be found. The loops
that look for cycles from all objects of a graph together take at most one round for every
dependency that counts and one for every object that was entered. -/
theorem searches_end_within_budget (ds : List Dependency) (owner name : String)
    (g : DependencyGraph) :
    let c := Catalog.ofDependencies ds
    let key := ObjectKey.ofNames owner name
    (∃ n t, Walk.Takes c.outgoing viewTarget n (loopFrom c.outgoing key) t ∧
      EndsWithin c.edges 1 n t ∧
      c.tablesBehind key = distinctBy Text.asciiFolded
        (((scannedEdges t).filter (·.targetKind = .table)).map (·.dependency.target.fullName))) ∧
    (∃ n t, Walk.Takes c.outgoing (some ·.target) n (loopFrom c.outgoing key) t ∧
      EndsWithin c.edges 1 n t ∧
      (c.dependencyTree owner name).children =
        Tree.mapDepthAll (fun level e ↦ .ofDependency level e.dependency) 1 t.finished) ∧
    (∃ n t, Walk.Takes c.incoming viewSource n (loopFrom c.incoming key) t ∧
      EndsWithin c.edges 1 n t ∧
      c.users owner name =
        (distinctBy (·.source) ((scannedEdges t).filter (·.sourceKind.isProgramUnit))).map
          (·.dependency.source.fullName)) ∧
    (∃ n t, Walk.Sweeps (successors g.catalog) some some n (g.objects.map (·.key)) .idle t ∧
      EndsWithin (adjacent g.catalog) g.objects.length n t ∧
      g.cycles = t.scanned.flatMap fun p ↦ closedCycle p.1 p.2) :=
  ⟨exists_loop_tablesBehind _ _, exists_loop_dependencyTree _ _ _, exists_loop_users _ _ _,
    exists_loops_cycles g⟩

end Lineage
