import Lineage.Graph.Cycle
import Lineage.Proofs.ClosedWalk
import Lineage.Proofs.Lists
import Lineage.Proofs.Traversal.DepthFirst
import Mathlib.Data.List.Infix

/-!
# Every cycle is broken

What the search for cycles promises, and why one search from every object in turn keeps the promise.
The search does not report every cycle, since there may be exponentially many. It reports a cycle
for each dependency that leads back to the way down, and whoever takes the last step of every
reported cycle away has no cycle left that an object leads to.

## Soundness

The keys on the way down form a path, and none of them is pending any more. A key that is among them
therefore closes a cycle without repeats, which is what `closedCycle` reports.

## Completeness

Say that a step *closes* when it is the last one of a reported cycle. The invariant of the search is
that the keys that are done with, neither pending nor on the way down, are well-founded along the
other steps: each such step from a key that is just done leads to a key that was done before, as the
ones that lead to the way down close. After the search every key that can be reached is done with,
and a cycle of steps that do not close would contradict well-foundedness.
-/

open Relation

namespace Lineage.DependencyGraph

variable {g : DependencyGraph}

/-! ## The relation between keys -/

/-- Whether a dependency counts for cycles: not one between different kinds of one key. -/
def Counts (d : Dependency) : Prop := d.source.key = d.target.key → d.source.kind = d.target.kind

instance (d : Dependency) : Decidable (Counts d) := inferInstanceAs (Decidable (_ → _))

/-- Whether a dependency that counts leads from one key to another. -/
def LeadsTo (g : DependencyGraph) (a b : ObjectKey) : Prop :=
  ∃ d ∈ g.dependencies, Counts d ∧ d.source.key = a ∧ d.target.key = b

instance (a b : ObjectKey) : Decidable (g.LeadsTo a b) :=
  inferInstanceAs (Decidable (∃ d ∈ g.dependencies, _))

/-- Whether some object leads to a key, in any number of steps. -/
def IsReachable (g : DependencyGraph) (key : ObjectKey) : Prop :=
  ∃ o ∈ g.objects, ReflTransGen g.LeadsTo o.key key

theorem countsForCycles_iff {e : Edge} : countsForCycles e = true ↔ Counts e.dependency := by
  rw [countsForCycles, Bool.or_eq_true, bne_iff_ne, decide_eq_true_iff, ← imp_iff_not_or,
    e.source_eq, e.target_eq]
  rfl

theorem mem_successors {a b : ObjectKey} : b ∈ successors g.catalog a ↔ g.LeadsTo a b := by
  simp only [successors, List.mem_map, List.mem_filter, Catalog.mem_outgoing, countsForCycles_iff]
  constructor
  · rintro ⟨e, ⟨⟨he, rfl⟩, hcounts⟩, rfl⟩
    obtain ⟨d, hd, rfl⟩ := List.mem_map.mp he
    exact ⟨d, hd, hcounts, rfl, rfl⟩
  · rintro ⟨d, hd, hcounts, rfl, rfl⟩
    exact ⟨.ofDependency d, ⟨⟨List.mem_map_of_mem hd, rfl⟩, hcounts⟩, rfl⟩

theorem mem_sources_of_leadsTo {a b : ObjectKey} (h : g.LeadsTo a b) : a ∈ g.catalog.sources := by
  obtain ⟨d, hd, -, rfl, -⟩ := h
  exact Catalog.mem_sources.mpr ⟨.ofDependency d, List.mem_map_of_mem hd, rfl⟩

/-! ## The cycles that a search closes -/

section Search

variable {next : ObjectKey → List ObjectKey} {pending rest edges above : List ObjectKey}
  {forest : List (Tree (Visit ObjectKey))} {depth : Nat}

open DepthFirst

/-- The cycles that are closed in a forest below some keys, the nearest first. -/
def closedIn (above : List ObjectKey) (depth : Nat) (forest : List (Tree (Visit ObjectKey))) :
    List (List ObjectKey) :=
  Tree.collectAll closedCycle above (Tree.mapDepthAll (fun _ v ↦ v.edge) depth forest)

@[simp] theorem closedIn_nil : closedIn above depth [] = [] := by
  rw [closedIn, Tree.mapDepthAll, Tree.collectAll]

@[simp] theorem closedIn_cons (v : Visit ObjectKey) (below beside : List (Tree (Visit ObjectKey))) :
    closedIn above depth (.node v below :: beside) =
      closedCycle above v.edge ++ closedIn (v.edge :: above) (depth + 1) below ++
        closedIn above depth beside := by
  rw [closedIn, Tree.mapDepthAll, Tree.mapDepth, Tree.collectAll, Tree.collect, closedIn, closedIn]

/-- A cycle is closed by coming to a key on the way down; backwards it goes up to where that key
comes first. -/
theorem mem_closedCycle {key : ObjectKey} {cycle : List ObjectKey} :
    cycle ∈ closedCycle above key ↔
      ∃ below beyond, above = below ++ key :: beyond ∧ key ∉ below ∧
        cycle = (key :: (below ++ [key])).reverse := by
  rw [closedCycle]
  by_cases hmem : key ∈ above
  · obtain ⟨below, beyond, rfl, hbelow⟩ := List.eq_append_cons_of_mem hmem
    rw [if_pos (List.contains_iff_mem.mpr hmem), List.mem_singleton, takeWhile_bne_append hbelow]
    constructor
    · intro h
      exact ⟨below, beyond, rfl, hbelow, by simpa using h⟩
    · rintro ⟨below', beyond', heq, hbelow', rfl⟩
      have hsame : below' = below := by
        rw [← takeWhile_bne_append hbelow' beyond', ← heq, takeWhile_bne_append hbelow]
      simp [hsame]
  · rw [if_neg (by simpa using hmem)]
    constructor
    · exact fun h ↦ absurd h List.not_mem_nil
    · rintro ⟨below, beyond, rfl, -, -⟩
      exact absurd (List.mem_append_right _ List.mem_cons_self) hmem

theorem mem_of_mem_closedCycle {key : ObjectKey} {cycle : List ObjectKey}
    (h : cycle ∈ closedCycle above key) : key ∈ cycle := by
  obtain ⟨below, beyond, -, -, rfl⟩ := mem_closedCycle.mp h
  simp

theorem exists_mem_closedCycle {a b : ObjectKey} (hhead : above.head? = some a) (hb : b ∈ above) :
    ∃ cycle ∈ closedCycle above b, [a, b] <:+ cycle := by
  obtain ⟨below, beyond, heq, hbelow⟩ := List.eq_append_cons_of_mem hb
  refine ⟨_, mem_closedCycle.mpr ⟨below, beyond, heq, hbelow, rfl⟩, ?_⟩
  rw [← List.reverse_prefix, List.reverse_reverse]
  cases below with
  | nil =>
    -- the lowest key leads to itself
    rw [heq, List.nil_append, List.head?_cons, Option.some_inj] at hhead
    exact ⟨[], by simp [hhead]⟩
  | cons k below =>
    rw [heq, List.cons_append, List.head?_cons, Option.some_inj] at hhead
    exact ⟨below ++ [b], by simp [hhead]⟩

/-! ### Soundness -/

theorem disjoint_cons_filter (h : above.Disjoint pending) (key : ObjectKey) :
    (key :: above).Disjoint (pending.filter (· != key)) := by
  rw [List.disjoint_cons_left]
  exact ⟨by simp, fun k hk hmem ↦ h hk (List.mem_of_mem_filter hmem)⟩

/-- What holds of the keys above an edge: each leads to the one before it, none comes twice, and
none is pending. -/
structure IsWayDown (next : ObjectKey → List ObjectKey) (pending above : List ObjectKey) :
    Prop where
  chain : above.IsChain (flip fun a b ↦ b ∈ next a)
  nodup : above.Nodup
  not_mem_pending : ∀ k ∈ above, k ∉ pending

namespace IsWayDown

theorem nil : IsWayDown next pending [] := ⟨.nil, List.nodup_nil, by simp⟩

theorem mono (h : IsWayDown next pending above) {fewer : List ObjectKey} (hsub : fewer ⊆ pending) :
    IsWayDown next fewer above :=
  ⟨h.chain, h.nodup, fun k hk hmem ↦ h.not_mem_pending k hk (hsub hmem)⟩

theorem cons (h : IsWayDown next pending above) {key : ObjectKey} (hkey : key ∈ pending)
    (hstep : ∀ a ∈ above.head?, key ∈ next a) :
    IsWayDown next (pending.filter (· != key)) (key :: above) where
  chain := h.chain.cons hstep
  nodup := List.nodup_cons.mpr ⟨fun hmem ↦ h.not_mem_pending key hmem hkey, h.nodup⟩
  not_mem_pending := disjoint_cons_filter h.not_mem_pending key

theorem isSimpleCycle (h : IsWayDown next pending above) {key : ObjectKey}
    (hstep : ∀ a ∈ above.head?, key ∈ next a) {cycle : List ObjectKey}
    (hcycle : cycle ∈ closedCycle above key) : IsSimpleCycle (fun a b ↦ b ∈ next a) cycle := by
  obtain ⟨below, beyond, rfl, hkey, rfl⟩ := mem_closedCycle.mp hcycle
  have happend : key :: (below ++ key :: beyond) = (key :: (below ++ [key])) ++ beyond := by simp
  refine ⟨⟨by simp, ?_, ?_⟩, ?_⟩
  · rw [List.head?_reverse, List.getLast?_reverse, ← List.cons_append, List.getLast?_concat]
    rfl
  · -- read upwards, the cycle is the start of the way down with the key once more below it
    have hchain := h.chain.cons hstep
    rw [happend] at hchain
    rw [List.isChain_reverse]
    exact hchain.left_of_append
  · rw [List.dropLast_reverse, List.tail_cons, (List.reverse_perm _).nodup_iff]
    exact h.nodup.sublist (List.Sublist.append_left (by simp) below)

end IsWayDown

theorem isSimpleCycle_of_mem_closedIn (h : Explored next some pending edges forest rest)
    (hway : IsWayDown next pending above) (hstep : ∀ e ∈ edges, ∀ a ∈ above.head?, e ∈ next a) :
    ∀ cycle ∈ closedIn above depth forest, IsSimpleCycle (fun a b ↦ b ∈ next a) cycle := by
  induction h generalizing above depth with
  | nil => simp
  | opened hfollow hpending hbelow _ ihbelow ihbeside =>
    rw [Option.some_inj] at hfollow
    subst hfollow
    rw [List.forall_mem_cons] at hstep
    rw [closedIn_cons, List.forall_mem_append, List.forall_mem_append]
    refine ⟨⟨fun _ ↦ hway.isSimpleCycle hstep.1, ?_⟩,
      ihbeside (hway.mono hbelow.rest_subset_of_filter) hstep.2⟩
    refine ihbelow (hway.cons hpending hstep.1) fun e he a ha ↦ ?_
    rw [List.head?_cons, Option.mem_some_iff] at ha
    exact ha ▸ he
  | closed _ _ ih =>
    rw [List.forall_mem_cons] at hstep
    rw [closedIn_cons, closedIn_nil, List.append_nil, List.forall_mem_append]
    exact ⟨fun _ ↦ hway.isSimpleCycle hstep.1, ih hway hstep.2⟩

theorem exists_mem_of_mem_closedIn (h : Explored next some pending edges forest rest) :
    ∀ cycle ∈ closedIn above depth forest, ∃ k ∈ looked forest, k ∈ cycle := by
  induction h generalizing above depth with
  | nil => simp
  | opened _ _ _ _ ihbelow ihbeside =>
    rw [closedIn_cons, looked_cons, List.forall_mem_append, List.forall_mem_append]
    refine ⟨⟨fun cycle hcycle ↦ ?_, fun cycle hcycle ↦ ?_⟩, fun cycle hcycle ↦ ?_⟩
    · exact ⟨_, List.mem_cons_self, mem_of_mem_closedCycle hcycle⟩
    · obtain ⟨k, hk, hmem⟩ := ihbelow cycle hcycle
      exact ⟨k, List.mem_cons_of_mem _ (List.mem_append_left _ hk), hmem⟩
    · obtain ⟨k, hk, hmem⟩ := ihbeside cycle hcycle
      exact ⟨k, List.mem_cons_of_mem _ (List.mem_append_right _ hk), hmem⟩
  | closed _ _ ih =>
    rw [closedIn_cons, looked_cons, closedIn_nil, looked_nil, List.append_nil, List.nil_append,
      List.forall_mem_append]
    refine ⟨fun cycle hcycle ↦ ?_, fun cycle hcycle ↦ ?_⟩
    · exact ⟨_, List.mem_cons_self, mem_of_mem_closedCycle hcycle⟩
    · obtain ⟨k, hk, hmem⟩ := ih cycle hcycle
      exact ⟨k, List.mem_cons_of_mem _ hk, hmem⟩

/-! ### Completeness -/

/-- An edge from the lowest key on the way down back to the way down is the last step of a cycle. -/
theorem exists_closing (h : Explored next some pending edges forest rest) {a b : ObjectKey}
    (hb : b ∈ edges) (hhead : above.head? = some a) (habove : b ∈ above) :
    ∃ cycle ∈ closedIn above depth forest, [a, b] <:+ cycle := by
  obtain ⟨closing, hclosing, hlast⟩ := exists_mem_closedCycle hhead habove
  induction h with
  | nil => exact absurd hb List.not_mem_nil
  | opened _ _ _ _ _ ihbeside =>
    rw [closedIn_cons]
    rcases List.mem_cons.mp hb with rfl | hb
    · exact ⟨_, List.mem_append_left _ (List.mem_append_left _ hclosing), hlast⟩
    · obtain ⟨cycle, hcycle, hsuffix⟩ := ihbeside hb
      exact ⟨cycle, List.mem_append_right _ hcycle, hsuffix⟩
  | closed _ _ ih =>
    rw [closedIn_cons]
    rcases List.mem_cons.mp hb with rfl | hb
    · exact ⟨_, List.mem_append_left _ (List.mem_append_left _ hclosing), hlast⟩
    · obtain ⟨cycle, hcycle, hsuffix⟩ := ih hb
      exact ⟨cycle, List.mem_append_right _ hcycle, hsuffix⟩

/-- A step that is not the last one of any reported cycle. -/
def StaysOpen (next : ObjectKey → List ObjectKey) (closes : ObjectKey → ObjectKey → Prop)
    (a b : ObjectKey) : Prop := b ∈ next a ∧ ¬closes a b

/-- The invariant of the search: the keys that are done with are well-founded along the steps that
close no cycle. -/
theorem acc_of_not_mem (h : Explored next some pending edges forest rest)
    {closes : ObjectKey → ObjectKey → Prop}
    (hcloses : ∀ cycle ∈ closedIn above depth forest, ∀ a b, [a, b] <:+ cycle → closes a b)
    (hdone : ∀ k, k ∉ pending → k ∉ above → Acc (Function.swap (StaysOpen next closes)) k) :
    ∀ k, k ∉ rest → k ∉ above → Acc (Function.swap (StaysOpen next closes)) k := by
  induction h generalizing above depth with
  | nil => exact hdone
  | @opened pending left _ key _ _ _ _ hfollow hpending hbelow _ ihbelow ihbeside =>
    rw [Option.some_inj] at hfollow
    subst hfollow
    rw [closedIn_cons, List.forall_mem_append, List.forall_mem_append] at hcloses
    obtain ⟨⟨-, hclosesBelow⟩, hclosesBeside⟩ := hcloses
    -- below, the key is on the way down instead of pending
    have hdoneBelow : ∀ k, k ∉ left → k ∉ key :: above →
        Acc (Function.swap (StaysOpen next closes)) k := by
      refine ihbelow hclosesBelow fun k hk hkabove ↦ ?_
      rw [List.mem_cons, not_or] at hkabove
      refine hdone k (fun hmem ↦ hk ?_) hkabove.2
      exact List.mem_filter.mpr ⟨hmem, bne_iff_ne.mpr hkabove.1⟩
    refine ihbeside hclosesBeside fun k hk hkabove ↦ ?_
    by_cases hkey : k = key
    · -- the key that was opened last: its steps lead to keys done before or close a cycle
      subst hkey
      refine Acc.intro k fun b hb ↦ ?_
      obtain ⟨hnext, hopen⟩ : StaysOpen next closes k b := hb
      refine hdoneBelow b (hbelow.not_mem_rest b (hbelow.subset_looked hnext) b rfl) fun hmem ↦ ?_
      obtain ⟨cycle, hcycle, hlast⟩ := exists_closing hbelow hnext rfl hmem
      exact hopen (hclosesBelow cycle hcycle k b hlast)
    · exact hdoneBelow k hk (List.not_mem_cons_of_ne_of_not_mem hkey hkabove)
  | closed _ _ ih =>
    rw [closedIn_cons, List.forall_mem_append] at hcloses
    exact ih hcloses.2 hdone

end Search

/-! ## The cycles of a graph -/

/-- The search for cycles as a relation. It looks at the keys that some object leads to. -/
theorem explored_cycles (g : DependencyGraph) :
    ∃ forest rest, DepthFirst.Explored (successors g.catalog) some g.catalog.sources
      (g.objects.map (·.key)) forest rest ∧ g.cycles = closedIn [] 0 forest ∧
      ∀ k, k ∈ DepthFirst.looked forest ↔ g.IsReachable k := by
  have hstep : DepthFirst.Step (successors g.catalog) some = g.LeadsTo := by
    ext a b
    simp [DepthFirst.Step, mem_successors]
  refine ⟨_, _, DepthFirst.explored_explore _ _ _ _, rfl, fun k ↦ ?_⟩
  rw [← DepthFirst.forest, ← DepthFirst.edgesFrom_eq_looked, DepthFirst.mem_edgesFrom_iff]
  · rw [DepthFirst.Reached, hstep, IsReachable]
    constructor
    · rintro (hk | ⟨a, ha, b, c, hab, hbc, hk⟩)
      · obtain ⟨o, ho, rfl⟩ := List.mem_map.mp hk
        exact ⟨o, ho, ReflTransGen.refl⟩
      · obtain ⟨o, ho, rfl⟩ := List.mem_map.mp ha
        rw [Option.some_inj] at hab
        exact ⟨o, ho, hab ▸ hbc.tail (mem_successors.mp hk)⟩
    · rintro ⟨o, ho, hk⟩
      have hmem : o.key ∈ g.objects.map (·.key) := List.mem_map_of_mem ho
      rcases ReflTransGen.cases_tail_iff _ _ _ |>.mp hk with rfl | ⟨b, hb, hbk⟩
      · exact Or.inl hmem
      · exact Or.inr ⟨o.key, hmem, o.key, b, rfl, hb, mem_successors.mpr hbk⟩
  · -- what is not pending from the beginning leads nowhere
    intro k hk b hb
    exact absurd (mem_sources_of_leadsTo (mem_successors.mp hb)) hk

theorem isSimpleCycle_of_mem_cycles {cycle : List ObjectKey} (h : cycle ∈ g.cycles) :
    IsSimpleCycle g.LeadsTo cycle := by
  obtain ⟨forest, rest, hrun, hcycles, -⟩ := g.explored_cycles
  rw [hcycles] at h
  have hcycle := isSimpleCycle_of_mem_closedIn hrun .nil (by simp) cycle h
  exact ⟨hcycle.toIsClosedWalk.imp fun a b _ hab ↦ mem_successors.mp hab, hcycle.nodup_dropLast⟩

theorem isReachable_of_mem_cycles {cycle : List ObjectKey} (h : cycle ∈ g.cycles) {k : ObjectKey}
    (hk : k ∈ cycle) : g.IsReachable k := by
  have hwalk := (isSimpleCycle_of_mem_cycles h).toIsClosedWalk
  obtain ⟨forest, rest, hrun, hcycles, hlooked⟩ := g.explored_cycles
  rw [hcycles] at h
  obtain ⟨k', hk', hmem⟩ := exists_mem_of_mem_closedIn hrun cycle h
  obtain ⟨o, ho, hreach⟩ := (hlooked k').mp hk'
  exact ⟨o, ho, hreach.trans (hwalk.reflTransGen hmem hk)⟩

theorem exists_closing_of_isClosedWalk {walk : List ObjectKey} (h : IsClosedWalk g.LeadsTo walk)
    {k : ObjectKey} (hk : k ∈ walk) (hreach : g.IsReachable k) :
    ∃ a b, [a, b] <:+: walk ∧ ∃ cycle ∈ g.cycles, [a, b] <:+ cycle := by
  obtain ⟨forest, rest, hrun, hcycles, hlooked⟩ := g.explored_cycles
  let closes (a b : ObjectKey) : Prop := ∃ cycle ∈ g.cycles, [a, b] <:+ cycle
  -- otherwise the walk would be one along steps that close nothing
  by_contra hnone
  have hopen : IsClosedWalk (StaysOpen (successors g.catalog) closes) walk := by
    refine h.imp fun a b hab hstep ↦ ⟨mem_successors.mpr hstep, fun hclose ↦ hnone ?_⟩
    exact ⟨a, b, hab, hclose⟩
  have hacc : Acc (Function.swap (StaysOpen (successors g.catalog) closes)) k := by
    refine acc_of_not_mem hrun (fun cycle hcycle a b hab ↦ ⟨cycle, hcycles ▸ hcycle, hab⟩) ?_ k ?_
      List.not_mem_nil
    · intro j hj _
      refine Acc.intro j fun b hb ↦ ?_
      obtain ⟨hnext, -⟩ : StaysOpen (successors g.catalog) closes j b := hb
      exact absurd (mem_sources_of_leadsTo (mem_successors.mp hnext)) hj
    · exact hrun.not_mem_rest k ((hlooked k).mpr hreach) k rfl
  exact not_acc_of_transGen (hopen.transGen hk) hacc

theorem cycles_eq_nil_iff :
    g.cycles = [] ↔ ∀ walk, IsClosedWalk g.LeadsTo walk → ∀ k ∈ walk, ¬g.IsReachable k := by
  constructor
  · intro hnil walk hwalk k hk hreach
    obtain ⟨a, b, -, cycle, hcycle, -⟩ := exists_closing_of_isClosedWalk hwalk hk hreach
    rw [hnil] at hcycle
    exact absurd hcycle List.not_mem_nil
  · intro hnone
    refine List.eq_nil_iff_forall_not_mem.mpr fun cycle hcycle ↦ ?_
    have hwalk := (isSimpleCycle_of_mem_cycles hcycle).toIsClosedWalk
    obtain ⟨k, hk⟩ := hwalk.exists_mem
    exact hnone cycle hwalk k hk (isReachable_of_mem_cycles hcycle hk)

/-- **The search for cycles is sound and breaks every cycle.** What it reports are cycles without
repeats that can be reached; any closed walk that can be reached takes the last step of one of them;
and so nothing is reported exactly when no closed walk can be reached. -/
theorem cycles_sound_and_breaking (g : DependencyGraph) :
    (∀ cycle ∈ g.cycles, IsSimpleCycle g.LeadsTo cycle ∧ ∀ k ∈ cycle, g.IsReachable k) ∧
      (∀ walk, IsClosedWalk g.LeadsTo walk → (∃ k ∈ walk, g.IsReachable k) →
        ∃ a b, [a, b] <:+: walk ∧ ∃ cycle ∈ g.cycles, [a, b] <:+ cycle) ∧
      (g.cycles = [] ↔ ∀ walk, IsClosedWalk g.LeadsTo walk → ∀ k ∈ walk, ¬g.IsReachable k) := by
  refine ⟨fun cycle h ↦ ⟨isSimpleCycle_of_mem_cycles h, fun k ↦ isReachable_of_mem_cycles h⟩, ?_,
    cycles_eq_nil_iff⟩
  rintro walk hwalk ⟨k, hk, hreach⟩
  exact exists_closing_of_isClosedWalk hwalk hk hreach

end Lineage.DependencyGraph
