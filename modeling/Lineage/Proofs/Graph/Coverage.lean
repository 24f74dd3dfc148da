import Lineage.Proofs.Graph.Conflation
import Mathlib.Data.List.Perm.Basic

/-!
# Which cycles are reported

Every cycle is broken by what is reported, but not every cycle is reported. A search comes to each
key once, so of two cycles that share a step it may go down one and come to the rest of the other
when that is done with. Which of them is reported depends on the order in which the objects and the
dependencies are listed.

## Cycles with steps for themselves

A cycle always takes the last step of a reported one. So if every cycle that shares a step with it
has the same keys, then its keys are reported, in any order of the graph.

## Cycles that share a step

No more can be promised. Take two cycles that share a step, list the object at the end of that step
first, and first among the dependencies those of one of the cycles. The search starts at the end of
the step and goes down that cycle until it comes to the start of the step. Whatever is reported with
both ends of the step lies on the way down and has all keys of the cycle. So if the other cycle is
reported in this order, then it has all keys of the first; and by symmetry both have the same.
-/

open Relation

namespace Lineage.DependencyGraph

variable {g g' : DependencyGraph} {walk walk' : List ObjectKey}

/-! ## Going down a path -/

section Search

open DepthFirst

variable {next : ObjectKey → List ObjectKey} {pending rest edges above : List ObjectKey}
  {forest : List (Tree (Visit ObjectKey))} {depth : Nat}

theorem subset_above_of_mem_closedCycle {key : ObjectKey} {cycle : List ObjectKey}
    (h : cycle ∈ closedCycle above key) : cycle ⊆ above := by
  obtain ⟨below, beyond, rfl, -, rfl⟩ := mem_closedCycle.mp h
  intro k hk
  simp only [List.mem_reverse, List.mem_cons, List.mem_append, List.not_mem_nil, or_false] at hk
  rcases hk with rfl | hk | rfl
  · exact List.mem_append_right _ List.mem_cons_self
  · exact List.mem_append_left _ hk
  · exact List.mem_append_right _ List.mem_cons_self

theorem mem_of_mem_closedIn (h : Explored next some pending edges forest rest) :
    ∀ cycle ∈ closedIn above depth forest, ∀ k ∈ cycle, k ∈ pending ∨ k ∈ above := by
  induction h generalizing above depth with
  | nil => simp
  | opened hfollow hpending hbelow _ ihbelow ihbeside =>
    rw [Option.some_inj] at hfollow
    subst hfollow
    rw [closedIn_cons, List.forall_mem_append, List.forall_mem_append]
    refine ⟨⟨fun cycle hcycle k hk ↦ ?_, fun cycle hcycle k hk ↦ ?_⟩, fun cycle hcycle k hk ↦ ?_⟩
    · exact Or.inr (subset_above_of_mem_closedCycle hcycle hk)
    · rcases ihbelow cycle hcycle k hk with hmem | hmem
      · exact Or.inl (List.mem_of_mem_filter hmem)
      · rcases List.mem_cons.mp hmem with rfl | hmem
        · exact Or.inl hpending
        · exact Or.inr hmem
    · rcases ihbeside cycle hcycle k hk with hmem | hmem
      · exact Or.inl (hbelow.rest_subset_of_filter hmem)
      · exact Or.inr hmem
  | closed _ _ ih =>
    rw [closedIn_cons, closedIn_nil, List.append_nil, List.forall_mem_append]
    exact ⟨fun cycle hcycle k hk ↦ Or.inr (subset_above_of_mem_closedCycle hcycle hk), ih⟩

/-- What holds of the keys on the way down from a first one: none comes twice, and none of them is
pending any more. -/
structure IsBranch (top : ObjectKey) (pending above : List ObjectKey) : Prop where
  getLast?_eq : above.getLast? = some top
  nodup : above.Nodup
  disjoint : above.Disjoint pending

namespace IsBranch

variable {key top : ObjectKey}

theorem mono (h : IsBranch top pending above) {fewer : List ObjectKey} (hsub : fewer ⊆ pending) :
    IsBranch top fewer above :=
  ⟨h.getLast?_eq, h.nodup, fun _ hk hmem ↦ h.disjoint hk (hsub hmem)⟩

theorem cons (h : IsBranch top pending above) (hkey : key ∈ pending) :
    IsBranch top (pending.filter (· != key)) (key :: above) where
  getLast?_eq := by rw [List.getLast?_cons, h.getLast?_eq, Option.getD_some]
  nodup := List.nodup_cons.mpr ⟨fun hmem ↦ h.disjoint hmem hkey, h.nodup⟩
  disjoint := disjoint_cons_filter h.disjoint key

theorem singleton : IsBranch key (pending.filter (· != key)) [key] :=
  ⟨rfl, List.pairwise_singleton _ _, List.singleton_disjoint.mpr (by simp)⟩

theorem subset_of_mem_closedCycle (h : IsBranch top pending above) {cycle : List ObjectKey}
    (hcycle : cycle ∈ closedCycle above key) (hmem : top ∈ cycle) : above ⊆ cycle := by
  obtain ⟨below, beyond, rfl, -, rfl⟩ := mem_closedCycle.mp hcycle
  obtain ⟨-, hback, hne⟩ := List.nodup_append.mp h.nodup
  have htop : (key :: beyond).getLast? = some top := by
    rw [← h.getLast?_eq, List.getLast?_append_of_ne_nil _ (List.cons_ne_nil key beyond)]
  have hkey : top = key := by
    have hbelow : top ∉ below := fun h ↦ hne top h top (List.mem_of_getLast? htop) rfl
    simpa [hbelow] using hmem
  have hbeyond : beyond = [] := by
    cases beyond with
    | nil => rfl
    | cons k beyond =>
      rw [List.getLast?_cons_cons, hkey] at htop
      exact absurd (List.mem_of_getLast? htop) (List.nodup_cons.mp hback).1
  rw [hbeyond]
  intro k hk
  rw [List.mem_reverse]
  exact List.mem_cons_of_mem key hk

end IsBranch

theorem above_subset_of_mem_closedIn (h : Explored next some pending edges forest rest)
    {top : ObjectKey} (hbranch : IsBranch top pending above) :
    ∀ cycle ∈ closedIn above depth forest, top ∈ cycle → above ⊆ cycle := by
  induction h generalizing above depth with
  | nil => simp
  | @opened _ _ _ key _ _ _ _ hfollow hpending hbelow _ ihbelow ihbeside =>
    rw [Option.some_inj] at hfollow
    subst hfollow
    rw [closedIn_cons, List.forall_mem_append, List.forall_mem_append]
    refine ⟨⟨fun cycle ↦ hbranch.subset_of_mem_closedCycle, fun cycle hcycle hmem ↦ ?_⟩,
      ihbeside (hbranch.mono hbelow.rest_subset_of_filter)⟩
    exact List.Subset.trans (List.subset_cons_self key above)
      (ihbelow (hbranch.cons hpending) cycle hcycle hmem)
  | closed _ _ ih =>
    rw [closedIn_cons, closedIn_nil, List.append_nil, List.forall_mem_append]
    exact ⟨fun cycle ↦ hbranch.subset_of_mem_closedCycle, ih hbranch⟩

/-- A search goes down a path if each key of the path leads to the next one first. Afterwards the
last key is done with, and a cycle through it and through the first key of the way down goes through
the whole path. -/
theorem path_subset_of_mem_closedIn {path : List ObjectKey} {last top : ObjectKey}
    (h : Explored next some pending edges forest rest)
    (hchain : path.IsChain fun a b ↦ (next a).head? = some b) (hpath : path.Nodup)
    (hpending : path ⊆ pending) (hedges : edges.head? = path.head?)
    (hlast : path.getLast? = some last) (hbranch : IsBranch top pending above) :
    last ∉ rest ∧
      ∀ cycle ∈ closedIn above depth forest, top ∈ cycle → last ∈ cycle → path ⊆ cycle := by
  -- along the path, as the search opens its first key and starts with the next one below
  induction path generalizing pending edges forest rest above depth with
  | nil => simp at hlast
  | cons key path ih =>
    obtain ⟨hkey, hsub⟩ := List.cons_subset.mp hpending
    cases h with
    | nil => simp at hedges
    | closed hfollow _ =>
      rw [List.head?_cons, List.head?_cons, Option.some_inj] at hedges
      exact absurd (hedges ▸ hkey) (hfollow _ rfl)
    | @opened _ left _ edge _ k below beside hfollow hk hbelow hbeside =>
      rw [List.head?_cons, List.head?_cons, Option.some_inj] at hedges
      rw [Option.some_inj] at hfollow
      subst hedges hfollow
      have hinside : last ∉ left ∧ ∀ cycle ∈ closedIn (edge :: above) (depth + 1) below,
          top ∈ cycle → last ∈ cycle → path ⊆ cycle := by
        cases path with
        | nil =>
          rw [List.getLast?_singleton, Option.some_inj] at hlast
          refine ⟨fun hmem ↦ ?_, fun _ _ _ _ ↦ List.nil_subset _⟩
          simpa [hlast] using hbelow.rest_subset hmem
        | cons k path =>
          obtain ⟨hfirst, hchain⟩ := List.isChain_cons_cons.mp hchain
          obtain ⟨hedge, hpath⟩ := List.nodup_cons.mp hpath
          rw [List.getLast?_cons_cons] at hlast
          refine ih hbelow hchain hpath (fun j hj ↦ ?_) hfirst hlast (hbranch.cons hkey)
          exact List.mem_filter.mpr ⟨hsub hj, bne_iff_ne.mpr (ne_of_mem_of_not_mem hj hedge)⟩
      refine ⟨fun hmem ↦ hinside.1 (hbeside.rest_subset hmem), ?_⟩
      rw [closedIn_cons, List.forall_mem_append, List.forall_mem_append]
      refine ⟨⟨fun cycle hcycle ↦ ?_, fun cycle hcycle hmem hmem' ↦ ?_⟩,
        fun cycle hcycle hmem hmem' ↦ ?_⟩
      · -- the key is not on the way down yet, so coming to it closes nothing
        obtain ⟨_, _, rfl, -, -⟩ := mem_closedCycle.mp hcycle
        exact absurd hkey (hbranch.disjoint (List.mem_append_right _ List.mem_cons_self))
      · have habove := above_subset_of_mem_closedIn hbelow (hbranch.cons hkey) cycle hcycle hmem
        exact List.cons_subset.mpr ⟨habove List.mem_cons_self, hinside.2 cycle hcycle hmem hmem'⟩
      · -- beside, the last key of the path is neither pending nor on the way down
        rcases mem_of_mem_closedIn hbeside cycle hcycle last hmem' with hrest | habove
        · exact absurd hrest hinside.1
        · exact absurd (hpending (List.mem_of_getLast? hlast)) (hbranch.disjoint habove)

end Search

/-- What is reported with the ends of a path goes through the whole path, if the search starts with
the path and goes down it. -/
theorem path_subset_of_mem_cycles {path cycle : List ObjectKey} {first last : ObjectKey}
    (hobjects : (g.objects.map (·.key)).head? = some first)
    (hchain : path.IsChain fun a b ↦ (successors g.catalog a).head? = some b) (hpath : path.Nodup)
    (hsources : path ⊆ g.catalog.sources) (hfirst : path.head? = some first)
    (hlast : path.getLast? = some last) (hcycle : cycle ∈ g.cycles) (hmem : first ∈ cycle)
    (hmem' : last ∈ cycle) : path ⊆ cycle := by
  obtain ⟨forest, rest, hrun, hcycles, -⟩ := g.explored_cycles
  rw [hcycles] at hcycle
  obtain ⟨path, rfl⟩ := List.head?_eq_some_iff.mp hfirst
  obtain ⟨hsource, hsub⟩ := List.cons_subset.mp hsources
  generalize g.objects.map (·.key) = keys at hrun hobjects
  cases hrun with
  | nil => simp at hobjects
  | closed hfollow _ =>
    rw [List.head?_cons, Option.some_inj] at hobjects
    exact absurd hsource (hfollow _ (congrArg some hobjects))
  | @opened _ _ _ edge _ _ _ _ hfollow _ hbelow hbeside =>
    rw [List.head?_cons, Option.some_inj] at hobjects
    rw [Option.some_inj] at hfollow
    subst hobjects hfollow
    rw [closedIn_cons, List.mem_append, List.mem_append] at hcycle
    rcases hcycle with (hcycle | hcycle) | hcycle
    · -- nothing is above the first object
      simp [closedCycle] at hcycle
    · cases path with
      | nil => exact List.cons_subset.mpr ⟨hmem, List.nil_subset _⟩
      | cons k path =>
        obtain ⟨hstep, hchain⟩ := List.isChain_cons_cons.mp hchain
        obtain ⟨hkey, hpath⟩ := List.nodup_cons.mp hpath
        rw [List.getLast?_cons_cons] at hlast
        have hpending : k :: path ⊆ g.catalog.sources.filter (· != edge) := fun j hj ↦
          List.mem_filter.mpr ⟨hsub hj, bne_iff_ne.mpr (ne_of_mem_of_not_mem hj hkey)⟩
        refine List.cons_subset.mpr ⟨hmem, ?_⟩
        exact (path_subset_of_mem_closedIn hbelow hchain hpath hpending hstep hlast .singleton).2
          cycle hcycle hmem hmem'
    · -- beside, the first object is done with
      rcases mem_of_mem_closedIn hbeside cycle hcycle _ hmem with hrest | habove
      · simpa using hbelow.rest_subset hrest
      · cases habove

/-! ## Cycles of keys -/

/-- Whether a dependency leads from one key to another. -/
def Joins (g : DependencyGraph) (a b : ObjectKey) : Prop :=
  ∃ d ∈ g.dependencies, d.source.key = a ∧ d.target.key = b

instance (a b : ObjectKey) : Decidable (g.Joins a b) :=
  inferInstanceAs (Decidable (∃ d ∈ g.dependencies, _))

/-- A cycle of two or more keys along the dependencies of a graph. -/
structure IsCycle (g : DependencyGraph) (walk : List ObjectKey) : Prop
    extends IsSimpleCycle g.Joins walk where
  three_le_length : 3 ≤ walk.length

/-- Whether some list that is reported has the keys of a cycle and the first of them once more. -/
def Covers (g : DependencyGraph) (walk : List ObjectKey) : Prop :=
  ∃ found ∈ g.cycles, found.dropLast.Perm walk.dropLast

/-- Whether both ends of every dependency are among the objects. -/
def HasEnds (g : DependencyGraph) : Prop :=
  ∀ d ∈ g.dependencies,
    d.source.key ∈ g.objects.map (·.key) ∧ d.target.key ∈ g.objects.map (·.key)

instance : Decidable g.HasEnds := inferInstanceAs (Decidable (∀ d ∈ g.dependencies, _))

/-- Whether two graphs list the same, perhaps in another order. -/
structure IsReordering (g g' : DependencyGraph) : Prop where
  objects : g'.objects.Perm g.objects
  dependencies : g'.dependencies.Perm g.dependencies

namespace IsReordering

variable (h : g.IsReordering g')

include h

theorem joins_eq : g'.Joins = g.Joins := by
  ext a b
  simp only [Joins, h.dependencies.mem_iff]

theorem isCycle_iff : g'.IsCycle walk ↔ g.IsCycle walk := by
  constructor
  · exact fun hwalk ↦ ⟨h.joins_eq ▸ hwalk.toIsSimpleCycle, hwalk.three_le_length⟩
  · exact fun hwalk ↦ ⟨h.joins_eq ▸ hwalk.toIsSimpleCycle, hwalk.three_le_length⟩

theorem hasEnds (hends : g.HasEnds) : g'.HasEnds := by
  intro d hd
  rw [(h.objects.map _).mem_iff, (h.objects.map _).mem_iff]
  exact hends d (h.dependencies.mem_iff.mp hd)

end IsReordering

theorem leadsTo_of_joins {a b : ObjectKey} (h : g.Joins a b) (hne : a ≠ b) : g.LeadsTo a b := by
  obtain ⟨d, hd, rfl, rfl⟩ := h
  exact ⟨d, hd, fun heq ↦ absurd heq hne, rfl, rfl⟩

theorem joins_of_leadsTo {a b : ObjectKey} (h : g.LeadsTo a b) : g.Joins a b := by
  obtain ⟨d, hd, -, hsource, htarget⟩ := h
  exact ⟨d, hd, hsource, htarget⟩

theorem IsCycle.isClosedWalk (h : g.IsCycle walk) : IsClosedWalk g.LeadsTo walk :=
  h.toIsClosedWalk.imp fun _ _ hstep hjoins ↦
    leadsTo_of_joins hjoins (h.ne_of_step h.three_le_length hstep)

theorem isCycle_of_mem_cycles {found : List ObjectKey} (h : found ∈ g.cycles) {a b : ObjectKey}
    (hstep : [a, b] <:+: found) (hne : a ≠ b) : g.IsCycle found := by
  have hsimple := isSimpleCycle_of_mem_cycles h
  have hwalk : IsClosedWalk g.Joins found :=
    hsimple.toIsClosedWalk.imp fun _ _ _ ↦ joins_of_leadsTo
  exact ⟨⟨hwalk, hsimple.nodup_dropLast⟩, hwalk.three_le_length hstep hne⟩

theorem isReachable_of_joins (hends : g.HasEnds) {a b : ObjectKey} (h : g.Joins a b) :
    g.IsReachable a := by
  obtain ⟨d, hd, rfl, -⟩ := h
  obtain ⟨o, ho, hkey⟩ := List.mem_map.mp (hends d hd).1
  exact ⟨o, ho, hkey ▸ ReflTransGen.refl⟩

/-- Whether a cycle has its steps for itself: every cycle that shares one has the same keys. -/
def OwnsSteps (g : DependencyGraph) (walk : List ObjectKey) : Prop :=
  ∀ walk', g.IsCycle walk' → ∀ a b, [a, b] <:+: walk → [a, b] <:+: walk' →
    walk'.dropLast.Perm walk.dropLast

/-- A cycle is reported if it has its steps for itself. -/
theorem covers_of_ownsSteps (hends : g.HasEnds) (h : g.IsCycle walk) (hsteps : g.OwnsSteps walk) :
    g.Covers walk := by
  obtain ⟨k, hk⟩ := h.exists_mem
  obtain ⟨b, hkb⟩ := h.toIsClosedWalk.exists_rel hk
  obtain ⟨a, b, hstep, found, hfound, hlast⟩ :=
    exists_closing_of_isClosedWalk h.isClosedWalk hk (isReachable_of_joins hends hkb)
  have hcycle := isCycle_of_mem_cycles hfound hlast.isInfix (h.ne_of_step h.three_le_length hstep)
  exact ⟨found, hfound, hsteps found hcycle a b hstep hlast.isInfix⟩

/-! ## Reordering a graph -/

/-- A graph with the object at the start of a path first, and first among the dependencies those
along the path. -/
def favouring (g : DependencyGraph) (path : List ObjectKey) : DependencyGraph where
  objects :=
    let isStart (o : CatalogObject) : Bool := some o.key = path.head?
    g.objects.filter isStart ++ g.objects.filter (!isStart ·)
  dependencies :=
    let isAlong (d : Dependency) : Bool := [d.source.key, d.target.key] <:+: path
    g.dependencies.filter isAlong ++ g.dependencies.filter (!isAlong ·)

theorem isReordering_favouring (g : DependencyGraph) (path : List ObjectKey) :
    g.IsReordering (g.favouring path) :=
  ⟨List.filter_append_perm _ _, List.filter_append_perm _ _⟩

theorem head?_objects_favouring {path : List ObjectKey} {first : ObjectKey}
    (hfirst : path.head? = some first) (hmem : first ∈ g.objects.map (·.key)) :
    ((g.favouring path).objects.map (·.key)).head? = some first := by
  obtain ⟨o, ho, rfl⟩ := List.mem_map.mp hmem
  rw [favouring, List.map_append]
  refine head?_append_of_forall_eq ?_ fun b hb ↦ ?_
  · exact List.mem_map_of_mem (List.mem_filter.mpr ⟨ho, decide_eq_true hfirst.symm⟩)
  · obtain ⟨o', ho', rfl⟩ := List.mem_map.mp hb
    have hstart := of_decide_eq_true (List.mem_filter.mp ho').2
    rwa [hfirst, Option.some_inj] at hstart

theorem successors_append (ds ds' : List Dependency) (a : ObjectKey) :
    successors (.ofDependencies (ds ++ ds')) a =
      successors (.ofDependencies ds) a ++ successors (.ofDependencies ds') a := by
  simp only [successors, Catalog.outgoing, Catalog.ofDependencies, List.map_append,
    List.filter_append]

theorem head?_successors_favouring {path : List ObjectKey} (hpath : path.Nodup) {a b : ObjectKey}
    (hstep : [a, b] <:+: path) (h : g.LeadsTo a b) :
    (successors (g.favouring path).catalog a).head? = some b := by
  rw [catalog, favouring, successors_append]
  refine head?_append_of_forall_eq (mem_successors (g := ⟨[], _⟩).mpr ?_) fun c hc ↦ ?_
  · obtain ⟨d, hd, hcounts, rfl, rfl⟩ := h
    exact ⟨d, List.mem_filter.mpr ⟨hd, decide_eq_true hstep⟩, hcounts, rfl, rfl⟩
  · obtain ⟨d, hd, -, rfl, rfl⟩ := (mem_successors (g := ⟨[], _⟩)).mp hc
    have hstep' := of_decide_eq_true (List.mem_filter.mp hd).2
    exact eq_of_infix_of_nodup hpath hstep' hstep

/-! ## Two cycles that share a step -/

theorem subset_of_covers (hends : g.HasEnds) (hwalk : g.IsCycle walk) (hwalk' : g.IsCycle walk')
    {a b : ObjectKey} (hstep : [a, b] <:+: walk) (hstep' : [a, b] <:+: walk')
    (hcovers : ∀ g', g.IsReordering g' → g'.Covers walk') :
    walk.dropLast ⊆ walk'.dropLast := by
  obtain ⟨path, hchain, hfirst, hlast, hperm⟩ := hwalk.exists_path hstep
  have hpath : path.Nodup := hperm.nodup_iff.mpr hwalk.nodup_dropLast
  have hreordering := g.isReordering_favouring path
  obtain ⟨found, hfound, hsame⟩ := hcovers _ hreordering
  have hclosed := (isSimpleCycle_of_mem_cycles hfound).toIsClosedWalk
  -- the reported cycle has both ends of the step
  have hmem : ∀ k ∈ walk', k ∈ found := fun k hk ↦
    hclosed.mem_dropLast_iff.mp (hsame.mem_iff.mpr (hwalk'.mem_dropLast_iff.mpr hk))
  have ha : a ∈ walk' := hstep'.subset (by simp)
  have hb : b ∈ walk' := hstep'.subset (by simp)
  -- and the search goes down the path
  have hsubset : path ⊆ found := by
    refine path_subset_of_mem_cycles ?_ ?_ hpath ?_ hfirst hlast hfound (hmem b hb) (hmem a ha)
    · obtain ⟨d, hd, -, rfl⟩ := rel_of_step hwalk.chain hstep
      exact head?_objects_favouring hfirst (hends d hd).2
    · refine isChain_of_forall_step fun k j hkj ↦ ?_
      have hne : k ≠ j := by simpa using hpath.sublist hkj.sublist
      exact head?_successors_favouring hpath hkj (leadsTo_of_joins (rel_of_step hchain hkj) hne)
    · intro k hk
      have hkwalk := hwalk.mem_dropLast_iff.mp (hperm.mem_iff.mp hk)
      obtain ⟨j, hkj⟩ := (hreordering.isCycle_iff.mpr hwalk).isClosedWalk.exists_rel hkwalk
      exact mem_sources_of_leadsTo hkj
  intro k hk
  have hkfound := hsubset (hperm.mem_iff.mpr hk)
  exact hsame.mem_iff.mp (hclosed.mem_dropLast_iff.mpr hkfound)

/-- **Reported cycles.** A cycle that has its steps for itself is reported, in whatever order a
graph is listed. All cycles are reported in every order only then: if each has its steps for
itself. -/
theorem covers_iff_ownsSteps (hends : g.HasEnds) :
    (∀ walk, g.IsCycle walk → g.OwnsSteps walk → ∀ g', g.IsReordering g' → g'.Covers walk) ∧
      ((∀ g', g.IsReordering g' → ∀ walk, g.IsCycle walk → g'.Covers walk) ↔
        ∀ walk, g.IsCycle walk → g.OwnsSteps walk) := by
  have hsufficient : ∀ walk, g.IsCycle walk → g.OwnsSteps walk →
      ∀ g', g.IsReordering g' → g'.Covers walk := by
    intro walk hwalk hsteps g' hreordering
    refine covers_of_ownsSteps (hreordering.hasEnds hends) (hreordering.isCycle_iff.mpr hwalk) ?_
    exact fun walk' hwalk' ↦ hsteps walk' (hreordering.isCycle_iff.mp hwalk')
  refine ⟨hsufficient, fun hall walk hwalk walk' hwalk' a b hstep hstep' ↦ ?_, ?_⟩
  · have hcovers : ∀ {walk}, g.IsCycle walk → ∀ g', g.IsReordering g' → g'.Covers walk :=
      fun h g' hreordering ↦ hall g' hreordering _ h
    refine (List.perm_ext_iff_of_nodup hwalk'.nodup_dropLast hwalk.nodup_dropLast).mpr fun k ↦ ?_
    constructor
    · exact fun hk ↦ subset_of_covers hends hwalk' hwalk hstep' hstep (hcovers hwalk) hk
    · exact fun hk ↦ subset_of_covers hends hwalk hwalk' hstep hstep' (hcovers hwalk') hk
  · exact fun hsteps g' hreordering walk hwalk ↦
      hsufficient walk hwalk (hsteps walk hwalk) g' hreordering

/-- Three procedures that use one another in a cycle, with a dependency that cuts it short. -/
def chord : List Dependency :=
  let procedure (name : String) : ObjectRef := ⟨"HR", name, .procedure⟩
  [⟨procedure "A", procedure "B", .hard⟩, ⟨procedure "B", procedure "C", .hard⟩,
    ⟨procedure "C", procedure "A", .hard⟩, ⟨procedure "A", procedure "C", .hard⟩]

theorem isCycle_chord :
    (ofDependencies chord).IsCycle [⟨"HR", "A"⟩, ⟨"HR", "C"⟩, ⟨"HR", "A"⟩] :=
  ⟨⟨⟨by decide, by decide, by decide⟩, by decide⟩, by decide⟩

/-- In some order, a cycle among the three procedures is not reported: the one through all of them
shares a step with the short one. -/
theorem exists_not_covers_chord :
    (ofDependencies chord).HasEnds ∧
      ¬∀ g', (ofDependencies chord).IsReordering g' →
        ∀ walk, (ofDependencies chord).IsCycle walk → g'.Covers walk := by
  have hends : (ofDependencies chord).HasEnds := by decide
  refine ⟨hends, fun hall ↦ ?_⟩
  have hlong : (ofDependencies chord).IsCycle
      [⟨"HR", "A"⟩, ⟨"HR", "B"⟩, ⟨"HR", "C"⟩, ⟨"HR", "A"⟩] :=
    ⟨⟨⟨by decide, by decide, by decide⟩, by decide⟩, by decide⟩
  have hperm := (covers_iff_ownsSteps hends).2.mp hall _ hlong _ isCycle_chord ⟨"HR", "C"⟩
    ⟨"HR", "A"⟩ (by decide) (by decide)
  exact absurd hperm.length_eq (by decide)

/-- In the order in which they are listed, the search goes down from the first procedure through the
second to the third, and the short cycle is not reported. -/
theorem not_covers_chord :
    (ofDependencies chord).HasEnds ∧
      (ofDependencies chord).IsCycle [⟨"HR", "A"⟩, ⟨"HR", "C"⟩, ⟨"HR", "A"⟩] ∧
      ¬(ofDependencies chord).Covers [⟨"HR", "A"⟩, ⟨"HR", "C"⟩, ⟨"HR", "A"⟩] := by
  refine ⟨by decide, isCycle_chord, ?_⟩
  rintro ⟨found, hfound, hperm⟩
  have hclosed := (isSimpleCycle_of_mem_cycles hfound).toIsClosedWalk
  have hkeys : ∀ k, k ∈ found ↔ k = ⟨"HR", "A"⟩ ∨ k = ⟨"HR", "C"⟩ := fun k ↦ by
    rw [← hclosed.mem_dropLast_iff, hperm.mem_iff]
    simp
  let path : List ObjectKey := [⟨"HR", "A"⟩, ⟨"HR", "B"⟩, ⟨"HR", "C"⟩]
  have hsubset : path ⊆ found :=
    path_subset_of_mem_cycles (by decide) (by decide) (by decide) (by decide) rfl rfl hfound
      ((hkeys _).mpr (Or.inl rfl)) ((hkeys _).mpr (Or.inr rfl))
  exact absurd ((hkeys ⟨"HR", "B"⟩).mp (hsubset (by decide))) (by decide)

end Lineage.DependencyGraph
