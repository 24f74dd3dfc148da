import Lineage.Proofs.Graph.Cycle
import Lineage.Proofs.Graph.Merge
import Mathlib.Data.List.Nodup

/-!
# How often a cycle is reported

A graph may hold several dependencies from one key to another: those of different strengths, those
of two foreign keys to one table, and all of them twice after it was merged with itself. The search
for cycles looks at each, and so it may report a cycle more than once. It does so exactly as often
as there are dependencies for the last step of the cycle.

## Where a cycle is closed

A cycle is closed by a dependency of the key before its last one, when that key is the lowest on the
way down. The way down to a key is the same for all dependencies of the key, so each of them that is
one on the last key of the cycle closes it once more. No other dependency does: a key that was
opened is pending no more, and never becomes the lowest again.

## Graphs in which nothing is reported twice

So the cycles are pairwise different if and only if each of them has one dependency for its last
step. For the other steps of a cycle repeated dependencies do not matter, since the search goes down
the first and passes over the others. A graph that was merged with itself has every dependency
twice, and reports each of its cycles more than once.
-/

namespace Lineage.DependencyGraph

variable {g : DependencyGraph} {a b : ObjectKey}

/-- The number of dependencies that lead from one key to another and count. -/
def stepCount (g : DependencyGraph) (a b : ObjectKey) : Nat :=
  g.dependencies.countP fun d ↦ Counts d ∧ d.source.key = a ∧ d.target.key = b

theorem count_successors : (successors g.catalog a).count b = g.stepCount a b := by
  rw [successors, Catalog.outgoing, catalog, Catalog.ofDependencies, List.count_eq_countP,
    List.countP_map, List.countP_filter, List.countP_filter, List.countP_map, stepCount]
  refine List.countP_congr fun d _ ↦ ?_
  simp only [Function.comp_apply, Edge.ofDependency, Bool.and_eq_true, beq_iff_eq,
    countsForCycles_iff, decide_eq_true_iff]
  rw [and_assoc, and_rotate]

/-! ## Where a cycle is closed -/

section Search

open DepthFirst

variable {next : ObjectKey → List ObjectKey} {pending rest edges above cycle : List ObjectKey}
  {forest : List (Tree (Visit ObjectKey))} {depth : Nat} {key : ObjectKey}

theorem closedCycle_eq_nil (h : key ∉ above) : closedCycle above key = [] := by
  rw [closedCycle, if_neg (by simpa using h)]

theorem closedCycle_eq_singleton (h : cycle ∈ closedCycle above key) :
    closedCycle above key = [cycle] := by
  by_cases hmem : key ∈ above
  · rw [closedCycle, if_pos (List.contains_iff_mem.mpr hmem)] at h ⊢
    rw [List.mem_singleton.mp h]
  · rw [closedCycle_eq_nil hmem] at h
    exact absurd h List.not_mem_nil

theorem eq_of_suffix_of_mem_closedCycle (h : cycle ∈ closedCycle above key)
    (hlast : [a, b] <:+ cycle) : above.head? = some a ∧ key = b := by
  obtain ⟨below, beyond, rfl, -, rfl⟩ := mem_closedCycle.mp h
  rw [← List.reverse_prefix, List.reverse_reverse] at hlast
  cases below with
  | nil =>
    obtain ⟨rfl, rfl⟩ : b = key ∧ a = key := by simpa using hlast
    exact ⟨rfl, rfl⟩
  | cons k below =>
    obtain ⟨rfl, rfl⟩ : b = key ∧ a = k := by simpa using hlast
    exact ⟨rfl, rfl⟩

/-- A cycle is closed at the key before its last one, which is the lowest on the way down or was
opened. -/
theorem closed_at_of_mem_closedIn (h : Explored next some pending edges forest rest) :
    ∀ cycle ∈ closedIn above depth forest, [a, b] <:+ cycle →
      (above.head? = some a ∧ cycle ∈ closedCycle above b) ∨ (a ∈ pending ∧ a ∉ rest) := by
  have hhere : ∀ {above : List ObjectKey} {key}, ∀ cycle ∈ closedCycle above key,
      [a, b] <:+ cycle → above.head? = some a ∧ cycle ∈ closedCycle above b := by
    intro above key cycle hcycle hlast
    obtain ⟨hhead, rfl⟩ := eq_of_suffix_of_mem_closedCycle hcycle hlast
    exact ⟨hhead, hcycle⟩
  induction h generalizing above depth with
  | nil => simp
  | @opened pending left rest key _ _ _ _ hfollow hpending hbelow hbeside ihbelow ihbeside =>
    rw [Option.some_inj] at hfollow
    subst hfollow
    rw [closedIn_cons, List.forall_mem_append, List.forall_mem_append]
    refine ⟨⟨fun cycle hcycle hlast ↦ ?_, fun cycle hcycle hlast ↦ ?_⟩, fun cycle hcycle hlast ↦ ?_⟩
    · exact Or.inl (hhere cycle hcycle hlast)
    · rcases ihbelow cycle hcycle hlast with ⟨hhead, -⟩ | ⟨hmem, hleft⟩
      · -- closed by the key that is opened here
        rw [List.head?_cons, Option.some_inj] at hhead
        subst hhead
        refine Or.inr ⟨hpending, fun hrest ↦ ?_⟩
        simpa using hbelow.rest_subset (hbeside.rest_subset hrest)
      · -- closed by a key that is opened below
        exact Or.inr ⟨List.mem_of_mem_filter hmem, fun hrest ↦ hleft (hbeside.rest_subset hrest)⟩
    · rcases ihbeside cycle hcycle hlast with hhead | ⟨hmem, hrest⟩
      · exact Or.inl hhead
      · exact Or.inr ⟨hbelow.rest_subset_of_filter hmem, hrest⟩
  | closed _ _ ih =>
    rw [closedIn_cons, closedIn_nil, List.append_nil, List.forall_mem_append]
    exact ⟨fun cycle hcycle hlast ↦ Or.inl (hhere cycle hcycle hlast), ih⟩

/-! ## How often it is closed there -/

/-- At the lowest key on the way down, a cycle is closed by each edge to its last key. -/
theorem count_closedIn_of_mem_closedCycle (h : Explored next some pending edges forest rest)
    (hdisjoint : above.Disjoint pending) (hcycle : cycle ∈ closedCycle above b)
    (hlast : [a, b] <:+ cycle) : (closedIn above depth forest).count cycle = edges.count b := by
  obtain ⟨hhead, -⟩ := eq_of_suffix_of_mem_closedCycle hcycle hlast
  have habove : a ∈ above := List.mem_of_mem_head? hhead
  induction h with
  | nil => rw [closedIn_nil, List.count_nil, List.count_nil]
  | @opened pending left _ key _ _ below _ hfollow hpending hbelow _ _ ihbeside =>
    rw [Option.some_inj] at hfollow
    subst hfollow
    have hkey : key ∉ above := fun hmem ↦ hdisjoint hmem hpending
    have hne : key ≠ b := by
      rintro rfl
      rw [closedCycle_eq_nil hkey] at hcycle
      exact absurd hcycle List.not_mem_nil
    -- below, cycles are closed at the key that is opened here or at keys that are still pending
    have hnone : cycle ∉ closedIn (key :: above) (depth + 1) below := fun hmem ↦ by
      rcases closed_at_of_mem_closedIn hbelow cycle hmem hlast with ⟨hhead', -⟩ | ⟨hmem', -⟩
      · rw [List.head?_cons, Option.some_inj] at hhead'
        exact hkey (hhead' ▸ habove)
      · exact hdisjoint habove (List.mem_of_mem_filter hmem')
    rw [closedIn_cons, closedCycle_eq_nil hkey, List.nil_append, List.count_append,
      List.count_eq_zero_of_not_mem hnone, Nat.zero_add, List.count_cons_of_ne hne]
    exact ihbeside fun k hk hmem ↦ hdisjoint hk (hbelow.rest_subset_of_filter hmem)
  | @closed _ _ key _ _ _ _ ih =>
    rw [closedIn_cons, closedIn_nil, List.append_nil, List.count_append, ih hdisjoint]
    by_cases hkey : key = b
    · rw [hkey, closedCycle_eq_singleton hcycle, List.count_singleton_self, List.count_cons_self,
        Nat.add_comm]
    · have hnone : cycle ∉ closedCycle above key := fun hmem ↦
        hkey (eq_of_suffix_of_mem_closedCycle hmem hlast).2
      rw [List.count_eq_zero_of_not_mem hnone, Nat.zero_add, List.count_cons_of_ne hkey]

theorem count_closedIn_of_mem_pending (h : Explored next some pending edges forest rest)
    (hdisjoint : above.Disjoint pending) (hcycle : cycle ∈ closedIn above depth forest)
    (hlast : [a, b] <:+ cycle) (ha : a ∈ pending) :
    (closedIn above depth forest).count cycle = (next a).count b := by
  induction h generalizing above depth with
  | nil => exact absurd hcycle (by simp)
  | @opened pending left _ key _ _ below beside hfollow hpending hbelow hbeside ihbelow ihbeside =>
    rw [Option.some_inj] at hfollow
    subst hfollow
    -- beside, a cycle is closed at a key that was not opened here or below
    have hbesideLeft : cycle ∈ closedIn above depth beside → a ∈ left := fun hmem ↦ by
      rcases closed_at_of_mem_closedIn hbeside cycle hmem hlast with ⟨hhead, -⟩ | ⟨hleft, -⟩
      · exact absurd ha (hdisjoint (List.mem_of_mem_head? hhead))
      · exact hleft
    rw [closedIn_cons, closedCycle_eq_nil fun hmem ↦ hdisjoint hmem hpending, List.nil_append]
      at hcycle ⊢
    rw [List.count_append]
    by_cases hinside : cycle ∈ closedIn (key :: above) (depth + 1) below
    · have hdisjoint' := disjoint_cons_filter hdisjoint key
      rcases closed_at_of_mem_closedIn hbelow cycle hinside hlast with
        ⟨hhead, hhere⟩ | ⟨hmem, hleft⟩
      · -- closed by the key that is opened here
        rw [List.head?_cons, Option.some_inj] at hhead
        have hleft : a ∉ left := fun hmem ↦ by simpa [hhead] using hbelow.rest_subset hmem
        rw [List.count_eq_zero_of_not_mem (mt hbesideLeft hleft), Nat.add_zero,
          count_closedIn_of_mem_closedCycle hbelow hdisjoint' hhere hlast, hhead]
      · rw [List.count_eq_zero_of_not_mem (mt hbesideLeft hleft), Nat.add_zero]
        exact ihbelow hdisjoint' hinside hmem
    · have hfound := (List.mem_append.mp hcycle).resolve_left hinside
      rw [List.count_eq_zero_of_not_mem hinside, Nat.zero_add]
      exact ihbeside (fun k hk hmem ↦ hdisjoint hk (hbelow.rest_subset_of_filter hmem)) hfound
        (hbesideLeft hfound)
  | @closed _ _ key _ _ _ _ ih =>
    have hnone : cycle ∉ closedCycle above key := fun hmem ↦
      hdisjoint (List.mem_of_mem_head? (eq_of_suffix_of_mem_closedCycle hmem hlast).1) ha
    rw [closedIn_cons, closedIn_nil, List.append_nil] at hcycle ⊢
    rw [List.count_append, List.count_eq_zero_of_not_mem hnone, Nat.zero_add]
    exact ih hdisjoint ((List.mem_append.mp hcycle).resolve_left hnone) ha

end Search

/-! ## The cycles of a graph -/

theorem count_cycles_eq_stepCount {cycle : List ObjectKey} (h : cycle ∈ g.cycles)
    (hlast : [a, b] <:+ cycle) : g.cycles.count cycle = g.stepCount a b := by
  obtain ⟨forest, rest, hrun, hcycles, -⟩ := g.explored_cycles
  rw [hcycles] at h ⊢
  rcases closed_at_of_mem_closedIn hrun cycle h hlast with ⟨hhead, -⟩ | ⟨ha, -⟩
  · cases hhead
  · rw [count_closedIn_of_mem_pending hrun (List.disjoint_nil_left _) h hlast ha, count_successors]

theorem exists_suffix_of_mem_cycles {cycle : List ObjectKey} (h : cycle ∈ g.cycles) :
    ∃ a b, [a, b] <:+ cycle := by
  have hlength := (isSimpleCycle_of_mem_cycles h).two_le_length
  obtain ⟨a, b, hdrop⟩ := List.length_eq_two.mp
    (show (cycle.drop (cycle.length - 2)).length = 2 by rw [List.length_drop]; omega)
  exact ⟨a, b, hdrop ▸ List.drop_suffix _ _⟩

theorem nodup_cycles_iff : g.cycles.Nodup ↔
    ∀ cycle ∈ g.cycles, ∀ a b, [a, b] <:+ cycle → g.stepCount a b = 1 := by
  rw [List.nodup_iff_count_eq_one]
  refine forall₂_congr fun cycle hcycle ↦ ⟨fun hone a b hlast ↦ ?_, fun hall ↦ ?_⟩
  · rw [← count_cycles_eq_stepCount hcycle hlast, hone]
  · obtain ⟨a, b, hlast⟩ := exists_suffix_of_mem_cycles hcycle
    rw [count_cycles_eq_stepCount hcycle hlast, hall a b hlast]

/-- **How often a cycle is reported.** As often as there are dependencies that count for its last
step. So no cycle is reported twice if and only if there is one such dependency for each of the
cycles. -/
theorem cycles_repeat_with_last_step (g : DependencyGraph) :
    (∀ cycle ∈ g.cycles, ∃ a b, [a, b] <:+ cycle ∧ g.cycles.count cycle = g.stepCount a b) ∧
      (g.cycles.Nodup ↔
        ∀ cycle ∈ g.cycles, ∀ a b, [a, b] <:+ cycle → g.stepCount a b = 1) := by
  refine ⟨fun cycle hcycle ↦ ?_, nodup_cycles_iff⟩
  obtain ⟨a, b, hlast⟩ := exists_suffix_of_mem_cycles hcycle
  exact ⟨a, b, hlast, count_cycles_eq_stepCount hcycle hlast⟩

/-! ## Merging -/

theorem stepCount_merge (g other : DependencyGraph) :
    (g.merge other).stepCount a b = g.stepCount a b + other.stepCount a b := by
  rw [stepCount, dependencies_merge, List.countP_append, stepCount, stepCount]

/-- Once a graph was merged with itself, it has no cycles at all or repeats them. -/
theorem nodup_cycles_merge_self_iff :
    (g.merge g).cycles.Nodup ↔ (g.merge g).cycles = [] := by
  constructor
  · rw [nodup_cycles_iff]
    refine fun hone ↦ List.eq_nil_iff_forall_not_mem.mpr fun cycle hcycle ↦ ?_
    obtain ⟨a, b, hlast⟩ := exists_suffix_of_mem_cycles hcycle
    have hcount := hone cycle hcycle a b hlast
    rw [stepCount_merge] at hcount
    omega
  · intro hnil
    rw [hnil]
    exact List.nodup_nil

/-- Two procedures that use each other. -/
def mutualUse : DependencyGraph :=
  ofDependencies
    [⟨⟨"HR", "A", .procedure⟩, ⟨"HR", "B", .procedure⟩, .hard⟩,
      ⟨⟨"HR", "B", .procedure⟩, ⟨"HR", "A", .procedure⟩, .hard⟩]

/-- Once their graph was merged with itself, the cycle of the two is reported twice. -/
theorem not_nodup_cycles_mutualUse : ¬(mutualUse.merge mutualUse).cycles.Nodup := by
  rw [nodup_cycles_merge_self_iff, cycles_eq_nil_iff]
  intro hnone
  obtain ⟨o, ho, hkey⟩ : ∃ o ∈ (mutualUse.merge mutualUse).objects, o.key = ⟨"HR", "A"⟩ := by
    decide
  have hwalk : IsClosedWalk (mutualUse.merge mutualUse).LeadsTo
      [⟨"HR", "A"⟩, ⟨"HR", "B"⟩, ⟨"HR", "A"⟩] := ⟨by decide, by decide, by decide⟩
  exact hnone _ hwalk ⟨"HR", "A"⟩ List.mem_cons_self ⟨o, ho, hkey ▸ .refl⟩

end Lineage.DependencyGraph
