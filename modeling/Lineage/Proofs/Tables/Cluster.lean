import Lineage.Proofs.Lists
import Lineage.Proofs.Tables.Network
import Lineage.Proofs.Traversal.BreadthFirst
import Lineage.Tables.Cluster
import Mathlib.Algebra.BigOperators.Group.List.Basic
import Mathlib.Data.List.Forall2
import Mathlib.Data.List.Perm.Basic

/-!
# Clusters are components

A component of a network is a set of tables that holds, with any of its tables, exactly those that
steps between adjacent tables lead to. Clusters are found by going through the linked tables and
taking the component of each table that is not yet in one, so what has been found is at any time a
partition of what the tables gone through lead to. A cluster itself keeps no indices but only names,
which may repeat, and comes in another order; its members are therefore given beside it.

Tables that are linked but have no neighbour, because their foreign keys lead out of the schema, are
components of one table.
-/

open Relation

namespace Lineage

theorem firstGreatest?_eq_none_iff {α : Type} {f : α → Nat} {as : List α} :
    firstGreatest? f as = none ↔ as = [] := by
  cases as with
  | nil => simp [firstGreatest?]
  | cons a as =>
    rw [firstGreatest?]
    split
    · split <;> simp
    · simp

theorem exists_of_firstGreatest? {α : Type} {f : α → Nat} {as : List α} {b : α}
    (h : firstGreatest? f as = some b) :
    ∃ front rest, as = front ++ b :: rest ∧ (∀ a ∈ front, f a < f b) ∧ ∀ a ∈ rest, f a ≤ f b := by
  induction as generalizing b with
  | nil => simp [firstGreatest?] at h
  | cons a as ih =>
    rw [firstGreatest?] at h
    -- from the end: the head takes the place of a later candidate unless that one is greater
    cases hrest : firstGreatest? f as with
    | none =>
      rw [hrest, Option.some_inj] at h
      rw [firstGreatest?_eq_none_iff.mp hrest, h]
      exact ⟨[], [], rfl, by simp, by simp⟩
    | some c =>
      obtain ⟨front, rest, has, hfront, hafter⟩ := ih hrest
      rw [hrest] at h
      dsimp only at h
      split at h
      · rename_i hlt
        rw [Option.some_inj] at h
        subst h
        refine ⟨a :: front, rest, by rw [has, List.cons_append], ?_, hafter⟩
        exact List.forall_mem_cons.mpr ⟨hlt, hfront⟩
      · rename_i hge
        rw [Option.some_inj] at h
        subst h
        refine ⟨[], as, rfl, by simp, fun x hx ↦ ?_⟩
        have hc : f c ≤ f a := Nat.le_of_not_lt hge
        rw [has, List.mem_append, List.mem_cons] at hx
        rcases hx with hx | rfl | hx
        · exact Nat.le_trans (Nat.le_of_lt (hfront x hx)) hc
        · exact hc
        · exact Nat.le_trans (hafter x hx) hc

namespace TableNetwork

variable {n : TableNetwork} {i j : Nat} {part seen : List Nat} {found : List (List Nat)}

/-! ## Components -/

/-- Whether some tables are those that hang together with any one of them. -/
structure IsComponent (n : TableNetwork) (part : List Nat) : Prop where
  ne_nil : part ≠ []
  mem_iff : ∀ i ∈ part, ∀ j, j ∈ part ↔ ReflTransGen n.schema.Adjacent i j

theorem reflTransGen_symm (h : ReflTransGen n.schema.Adjacent i j) :
    ReflTransGen n.schema.Adjacent j i := by
  induction h with
  | refl => exact .refl
  | tail _ hstep ih => exact ih.head hstep.symm

theorem mem_component (hi : i ∈ n.indices) :
    j ∈ n.component i ↔ ReflTransGen n.schema.Adjacent i j := by
  rw [component, BreadthFirst.mem_reached_iff neighbours_subset hi, mem_neighbours_eq]

theorem nodup_component (hi : i ∈ n.indices) : (n.component i).Nodup :=
  BreadthFirst.nodup_reached neighbours_subset hi

theorem isComponent_component (hi : i ∈ n.indices) : n.IsComponent (n.component i) where
  ne_nil := List.ne_nil_of_mem ((mem_component hi).mpr .refl)
  mem_iff := by
    intro a ha b
    rw [mem_component hi] at ha ⊢
    exact ⟨(reflTransGen_symm ha).trans, ha.trans⟩

theorem IsComponent.perm {part' : List Nat} (h : n.IsComponent part) (hperm : part'.Perm part) :
    n.IsComponent part' where
  ne_nil hnil := h.ne_nil (List.nil_perm.mp (hnil ▸ hperm))
  mem_iff i hi j := by rw [hperm.mem_iff, h.mem_iff i (hperm.mem_iff.mp hi)]

/-! ## Finding components -/

/-- What is found when one more table is gone through. -/
def addComponent (n : TableNetwork) (found : List (List Nat)) (i : Nat) : List (List Nat) :=
  if found.any (·.contains i) then found else found ++ [n.component i]

theorem components_eq_foldl : n.components =
    (n.sortByName (n.indicesWhere n.isLinked)).foldl n.addComponent [] := rfl

/-- Whether components are a partition of what some tables lead to. -/
structure IsPartition (n : TableNetwork) (seen : List Nat) (found : List (List Nat)) : Prop where
  isComponent : ∀ part ∈ found, n.IsComponent part
  nodup : found.flatten.Nodup
  mem_flatten : ∀ i, i ∈ found.flatten ↔ ∃ j ∈ seen, ReflTransGen n.schema.Adjacent j i

theorem isPartition_nil : n.IsPartition [] [] := ⟨by simp, by simp, by simp⟩

theorem IsPartition.addComponent (h : n.IsPartition seen found) (hi : i ∈ n.indices) :
    n.IsPartition (seen ++ [i]) (n.addComponent found i) := by
  rw [TableNetwork.addComponent]
  have hany : found.any (·.contains i) = true ↔ i ∈ found.flatten := by
    simp [List.mem_flatten]
  by_cases hmem : i ∈ found.flatten
  · rw [if_pos (hany.mpr hmem)]
    refine ⟨h.isComponent, h.nodup, fun k ↦ ?_⟩
    rw [h.mem_flatten]
    constructor
    · rintro ⟨j, hj, hjk⟩
      exact ⟨j, List.mem_append_left _ hj, hjk⟩
    · rintro ⟨j, hj, hjk⟩
      rcases List.mem_append.mp hj with hj | hj
      · exact ⟨j, hj, hjk⟩
      · -- the new table is itself one that an earlier table leads to
        rw [List.mem_singleton.mp hj] at hjk
        obtain ⟨j', hj', hji⟩ := (h.mem_flatten i).mp hmem
        exact ⟨j', hj', hji.trans hjk⟩
  · rw [if_neg (fun h ↦ hmem (hany.mp h))]
    refine ⟨?_, ?_, fun k ↦ ?_⟩
    · rw [List.forall_mem_append, List.forall_mem_singleton]
      exact ⟨h.isComponent, isComponent_component hi⟩
    · rw [List.flatten_append, List.flatten_singleton]
      refine List.Nodup.append h.nodup (nodup_component hi) fun k hk hki ↦ hmem ?_
      obtain ⟨j, hj, hjk⟩ := (h.mem_flatten k).mp hk
      have hki := reflTransGen_symm ((mem_component hi).mp hki)
      exact (h.mem_flatten i).mpr ⟨j, hj, hjk.trans hki⟩
    · rw [List.flatten_append, List.flatten_singleton, List.mem_append, h.mem_flatten,
        mem_component hi]
      simp only [List.mem_append, List.mem_singleton, or_and_right, exists_or, exists_eq_left]

/-- Going through tables finds a partition of what they lead to. -/
theorem isPartition_foldl (hseen : ∀ i ∈ seen, i ∈ n.indices) :
    n.IsPartition seen (seen.foldl n.addComponent []) := by
  induction seen using List.reverseRecOn with
  | nil => exact isPartition_nil
  | append_singleton seen i ih =>
    rw [List.forall_mem_append, List.forall_mem_singleton] at hseen
    rw [List.foldl_append, List.foldl_cons, List.foldl_nil]
    exact (ih hseen.1).addComponent hseen.2

/-! ## Sorting by name -/

theorem sortByName_perm (n : TableNetwork) (is : List Nat) : (n.sortByName is).Perm is :=
  List.mergeSort_perm _ _

theorem pairwise_sortByName (n : TableNetwork) (is : List Nat) :
    (n.sortByName is).Pairwise (n.name · ≤ n.name ·) :=
  pairwise_mergeSort_of_total (r := fun i j ↦ n.name i ≤ n.name j) (fun _ _ _ ↦ String.le_trans)
    (fun _ _ ↦ String.le_total _ _) is

theorem mem_indicesWhere {p : Nat → Bool} :
    i ∈ n.indicesWhere p ↔ i ∈ n.indices ∧ p i = true := List.mem_filter

theorem nodup_indicesWhere (p : Nat → Bool) : (n.indicesWhere p).Nodup := List.nodup_range.filter p

theorem isPartition_components : n.IsPartition (n.indicesWhere n.isLinked) n.components := by
  have hperm := n.sortByName_perm (n.indicesWhere n.isLinked)
  have h : n.IsPartition (n.sortByName (n.indicesWhere n.isLinked)) n.components := by
    rw [components_eq_foldl]
    refine isPartition_foldl fun i hi ↦ ?_
    exact (mem_indicesWhere.mp (hperm.mem_iff.mp hi)).1
  exact ⟨h.isComponent, h.nodup, fun i ↦ by simp only [h.mem_flatten, hperm.mem_iff]⟩

theorem flatten_components_perm : n.components.flatten.Perm (n.indicesWhere n.isLinked) := by
  refine (List.perm_ext_iff_of_nodup isPartition_components.nodup (nodup_indicesWhere _)).mpr
    fun i ↦ ?_
  rw [isPartition_components.mem_flatten]
  constructor
  · rintro ⟨j, hj, hji⟩
    rcases hji.cases_tail with rfl | ⟨k, -, hki⟩
    · exact hj
    · exact mem_indicesWhere.mpr ⟨mem_indices.mpr hki.lt_right, isLinked_of_adjacent hki⟩
  · intro hi
    exact ⟨i, hi, .refl⟩

/-! ## Clusters -/

/-- Whether a cluster is that of some tables: their names, the number of their foreign keys that
refer to a table of the schema, and the name of one that is related to most others, the smallest
name of those. -/
structure IsClusterOf (n : TableNetwork) (c : TableCluster) (part : List Nat) : Prop where
  tables_eq : c.tables = part.map n.name
  linkCount_eq : c.linkCount =
    (part.map fun i ↦ (n.schema.keysAt i).countP n.schema.Resolves).sum
  central : ∃ i ∈ part, c.central = some (n.name i) ∧
    ∀ j ∈ part, n.degree j ≤ n.degree i ∧ (n.degree j = n.degree i → n.name i ≤ n.name j)

theorem countP_links_of_isComponent (h : n.IsComponent part) :
    (n.links.countP fun link ↦ part.contains link.1 && part.contains link.2) =
      n.schema.links.countP (part.contains ·.1) := by
  rw [n.links_eq]
  refine List.countP_congr fun link hlink ↦ ?_
  rw [Bool.and_eq_true, List.contains_iff_mem, List.contains_iff_mem, and_iff_left_iff_imp]
  intro hchild
  exact (h.mem_iff _ hchild _).mpr (.single (.inl (Schema.mem_links.mp hlink)))

/-- Of tables sorted by name the first that is related to most others has the smallest name of
those. -/
theorem exists_central (hne : part ≠ []) (hsorted : part.Pairwise (n.name · ≤ n.name ·)) :
    ∃ i ∈ part, (firstGreatest? n.degree part).map n.name = some (n.name i) ∧
      ∀ j ∈ part, n.degree j ≤ n.degree i ∧ (n.degree j = n.degree i → n.name i ≤ n.name j) := by
  have hsome : firstGreatest? n.degree part ≠ none := fun h ↦ hne (firstGreatest?_eq_none_iff.mp h)
  obtain ⟨i, hi⟩ := Option.ne_none_iff_exists'.mp hsome
  obtain ⟨front, rest, rfl, hfront, hrest⟩ := exists_of_firstGreatest? hi
  refine ⟨i, List.mem_append_right _ List.mem_cons_self, by rw [hi, Option.map_some], ?_⟩
  have hafter := (List.pairwise_cons.mp (List.pairwise_append.mp hsorted).2.1).1
  rw [List.forall_mem_append, List.forall_mem_cons]
  refine ⟨fun j hj ↦ ?_, ?_, fun j hj ↦ ?_⟩
  · exact ⟨Nat.le_of_lt (hfront j hj), fun heq ↦ absurd heq (Nat.ne_of_lt (hfront j hj))⟩
  · exact ⟨Nat.le_refl _, fun _ ↦ String.le_refl _⟩
  · exact ⟨hrest j hj, fun _ ↦ hafter j hj⟩

theorem isClusterOf_cluster (id : Nat) (h : n.IsComponent part) (hnodup : part.Nodup)
    (hpart : part ⊆ n.indices) : n.IsClusterOf (n.cluster id part) (n.sortByName part) := by
  have hperm := n.sortByName_perm part
  have hsorted := h.perm hperm
  refine ⟨rfl, ?_, exists_central hsorted.ne_nil (n.pairwise_sortByName part)⟩
  rw [cluster, countP_links_of_isComponent hsorted]
  refine Schema.countP_links (hperm.nodup_iff.mpr hnodup) fun i hi ↦ ?_
  exact mem_indices.mp (hpart (hperm.mem_iff.mp hi))

/-- The clusters in the order in which they are found. -/
def foundClusters (n : TableNetwork) : List TableCluster :=
  n.components.zipIdx.map fun (component, i) ↦ n.cluster (i + 1) component

theorem clusters_perm (n : TableNetwork) : n.clusters.Perm n.foundClusters :=
  List.mergeSort_perm _ _

theorem length_clusters (n : TableNetwork) : n.clusters.length = n.components.length := by
  rw [n.clusters_perm.length_eq, foundClusters, List.length_map, List.length_zipIdx]

/-- The clusters of a network are those of components that together hold the linked tables. -/
theorem exists_forall₂_isClusterOf (n : TableNetwork) :
    ∃ parts, List.Forall₂ n.IsClusterOf n.clusters parts ∧ (∀ part ∈ parts, n.IsComponent part) ∧
      parts.flatten.Perm (n.indicesWhere n.isLinked) := by
  have hmem : ∀ part ∈ n.components, part.Nodup ∧ part ⊆ n.indices := by
    intro part hpart
    refine ⟨(List.nodup_flatten.mp isPartition_components.nodup).1 part hpart, fun i hi ↦ ?_⟩
    have hi := List.mem_flatten.mpr ⟨part, hpart, hi⟩
    exact (mem_indicesWhere.mp (flatten_components_perm.mem_iff.mp hi)).1
  have hfound : List.Forall₂ n.IsClusterOf n.foundClusters (n.components.map n.sortByName) := by
    rw [foundClusters, ← List.zipIdx_map_fst 0 n.components, List.map_map,
      List.zipIdx_map_fst, List.forall₂_map_left_iff, List.forall₂_map_right_iff,
      List.forall₂_same]
    rintro ⟨part, i⟩ hpart
    have hpart := List.fst_mem_of_mem_zipIdx hpart
    exact isClusterOf_cluster _ (isPartition_components.isComponent part hpart)
      (hmem part hpart).1 (hmem part hpart).2
  obtain ⟨parts, hparts, hperm⟩ := List.perm_comp_forall₂ n.clusters_perm hfound
  have hflatten : (n.components.map n.sortByName).flatten.Perm n.components.flatten := by
    rw [← List.flatMap_def, ← List.flatMap_id]
    exact List.Perm.flatMap_left _ fun part _ ↦ n.sortByName_perm part
  refine ⟨parts, hparts, fun part hpart ↦ ?_,
    (hperm.flatten.trans hflatten).trans flatten_components_perm⟩
  obtain ⟨component, hcomponent, rfl⟩ := List.mem_map.mp (hperm.mem_iff.mp hpart)
  exact (isPartition_components.isComponent _ hcomponent).perm (n.sortByName_perm _)

theorem pairwise_clusters (n : TableNetwork) :
    n.clusters.Pairwise fun a b ↦ b.tables.length ≤ a.tables.length :=
  pairwise_mergeSort_of_total (r := fun a b : TableCluster ↦ b.tables.length ≤ a.tables.length)
    (fun _ _ _ hab hbc ↦ Nat.le_trans hbc hab) (fun _ _ ↦ Nat.le_total _ _) n.foundClusters

theorem map_id_clusters_perm (n : TableNetwork) :
    (n.clusters.map (·.id)).Perm (List.range' 1 n.clusters.length) := by
  refine (n.clusters_perm.map _).trans (List.Perm.of_eq ?_)
  have hid : ∀ p : List Nat × Nat, (n.cluster (p.2 + 1) p.1).id = 1 + p.2 :=
    fun p ↦ Nat.add_comm p.2 1
  rw [foundClusters, List.map_map, length_clusters, ← List.map_add_range' 0, ←
    List.zipIdx_map_snd, List.map_map]
  exact List.map_congr_left fun p _ ↦ hid p

/-! ## The names of all tables -/

theorem map_name_indices (n : TableNetwork) :
    n.indices.map n.name = n.schema.tables.map (·.name) := by
  refine List.ext_getElem (by simp [indices, size]) fun i hi hlt ↦ ?_
  rw [List.length_map] at hlt
  rw [List.getElem_map, List.getElem_map]
  simp only [indices, List.getElem_range, name]
  rw [List.getElem?_eq_getElem hlt, Option.map_some, Option.getD_some]

theorem linkedNames_append_isolatedNames_perm (n : TableNetwork) :
    (n.linkedNames ++ n.isolatedNames).Perm (n.schema.tables.map (·.name)) := by
  have hperm : ((n.sortByName (n.indicesWhere n.isLinked)) ++
      n.sortByName (n.indicesWhere (!n.isLinked ·))).Perm n.indices :=
    ((n.sortByName_perm _).append (n.sortByName_perm _)).trans (List.filter_append_perm _ _)
  rw [linkedNames, isolatedNames, sortedNames, sortedNames, ← List.map_append, ← map_name_indices]
  exact hperm.map n.name

theorem sum_keysAt_linked (n : TableNetwork) :
    ((n.indicesWhere n.isLinked).map fun i ↦ (n.schema.keysAt i).countP n.schema.Resolves).sum =
      (n.schema.tables.flatMap (·.foreignKeys)).countP n.schema.Resolves := by
  have hlt : ∀ i ∈ n.indicesWhere n.isLinked, i < n.schema.tables.length :=
    fun i hi ↦ mem_indices.mp (mem_indicesWhere.mp hi).1
  rw [← Schema.countP_links (nodup_indicesWhere _) hlt, ← Schema.length_links,
    List.countP_eq_length]
  intro link hlink
  have hrefers := Schema.mem_links.mp (show (link.1, link.2) ∈ n.schema.links from hlink)
  rw [List.contains_iff_mem, mem_indicesWhere]
  exact ⟨mem_indices.mpr hrefers.lt.1, (isLinked_of_refersTo hrefers).1⟩

/-- **Clusters are the components of the linked tables.** There are components, one for each
cluster, of which every linked table is in exactly one and no isolated table in any; so the sizes of
the clusters add up to the number of linked tables, which together with the isolated ones are all.
The clusters are listed by decreasing size and numbered from one in some order, and their foreign
keys are all that refer to a table of the schema. -/
theorem clusters_are_components (s : Schema) :
    let n := TableNetwork.ofSchema s
    (∃ parts, List.Forall₂ n.IsClusterOf n.clusters parts ∧ (∀ part ∈ parts, n.IsComponent part) ∧
      parts.flatten.Perm (n.indicesWhere n.isLinked)) ∧
    (n.clusters.map (·.tables.length)).sum = n.linkedNames.length ∧
    (n.linkedNames ++ n.isolatedNames).Perm (s.tables.map (·.name)) ∧
    n.clusters.Pairwise (fun a b ↦ b.tables.length ≤ a.tables.length) ∧
    (n.clusters.map (·.id)).Perm (List.range' 1 n.clusters.length) ∧
    (n.clusters.map (·.linkCount)).sum = (s.tables.flatMap (·.foreignKeys)).countP s.Resolves := by
  intro n
  obtain ⟨parts, hparts, hcomponents, hperm⟩ := n.exists_forall₂_isClusterOf
  refine ⟨⟨parts, hparts, hcomponents, hperm⟩, ?_, n.linkedNames_append_isolatedNames_perm,
    n.pairwise_clusters, n.map_id_clusters_perm, ?_⟩
  · have hsizes : n.clusters.map (·.tables.length) = parts.map List.length :=
      map_eq_map_of_forall₂ (fun c part h ↦ by rw [h.tables_eq, List.length_map]) hparts
    rw [hsizes, ← List.length_flatten, hperm.length_eq, linkedNames, sortedNames, List.length_map,
      (n.sortByName_perm _).length_eq]
  · -- a table's keys count in the one component that has it
    have hcounts : n.clusters.map (·.linkCount) =
        parts.map fun part ↦ (part.map fun i ↦ (s.keysAt i).countP s.Resolves).sum :=
      map_eq_map_of_forall₂ (fun c part h ↦ h.linkCount_eq) hparts
    calc (n.clusters.map (·.linkCount)).sum
        = (parts.flatten.map fun i ↦ (s.keysAt i).countP s.Resolves).sum := by
          rw [hcounts, List.map_flatten, List.sum_flatten, List.map_map]
          rfl
      _ = ((n.indicesWhere n.isLinked).map fun i ↦ (s.keysAt i).countP s.Resolves).sum :=
          (hperm.map _).sum_nat
      _ = (s.tables.flatMap (·.foreignKeys)).countP s.Resolves := sum_keysAt_linked n

end TableNetwork

end Lineage
