import Lineage.Proofs.Traversal.DepthFirst
import Lineage.Proofs.Traversal.Tree
import Mathlib.Data.List.Perm.Basic

/-!
# Where a depth-first search opens places

The forest of a search says more than which edges were looked at. Below an edge stands either all
that belongs to the place it leads to or nothing, and which of the two is decided by what was looked
at before: an edge opens a place if the place may be opened and no earlier edge leads to it.

Both halves of that are laws about what remains to be opened. After some edges were looked at, those
pending places remain to which none of the edges leads, whether the edges were on the way down or in
a part of the forest that is finished. `mem_rest_iff` says so of a whole search, and from it the
first law, `isOpenedAfter`, follows at every node. The second, `exists_taken`, counts: the places
that a search takes are pending ones, each is taken once, and the edges that it looks at are those
that it is given and those of the places taken.
-/

open Lineage.Tree

namespace Lineage.DepthFirst

variable {κ ε : Type} {next : κ → List ε} {follow : ε → Option κ} {pending left : List κ}
  {es es' : List ε} {k : κ}

/-! ## What remains -/

/-- Whether a place is pending and stays so when some edges are looked at. -/
def Remains (follow : ε → Option κ) (pending : List κ) (es : List ε) (k : κ) : Prop :=
  k ∈ pending ∧ ∀ e ∈ es, follow e ≠ some k

theorem remains_append_iff (h : ∀ k, k ∈ left ↔ Remains follow pending es k) :
    Remains follow pending (es ++ es') k ↔ Remains follow left es' k := by
  rw [Remains, Remains, h k, Remains, List.forall_mem_append, and_assoc]

theorem mem_filter_bne_iff_remains [BEq κ] [LawfulBEq κ] {edge : ε} {j : κ}
    (hfollow : follow edge = some j) (k : κ) :
    k ∈ pending.filter (· != j) ↔ Remains follow pending [edge] k := by
  rw [List.mem_filter, bne_iff_ne, Remains, List.forall_mem_singleton, hfollow, Ne, Ne,
    Option.some_inj, eq_comm]

theorem mem_iff_remains {edge : ε} (hfollow : ∀ k, follow edge = some k → k ∉ pending) (k : κ) :
    k ∈ pending ↔ Remains follow pending [edge] k := by
  rw [Remains, List.forall_mem_singleton]
  exact ⟨fun hk ↦ ⟨hk, fun h ↦ hfollow k h hk⟩, And.left⟩

/-! ## Nodes -/

/-- The edge at the root of a tree. -/
def rootEdge (t : Tree (Visit ε)) : ε := t.value.edge

theorem map_rootEdge_subtreesAll (forest : List (Tree (Visit ε))) :
    (subtreesAll forest).map rootEdge = looked forest := by
  rw [looked, ← map_value_subtreesAll, List.map_map]
  rfl

/-- What is below a node when `es` are the edges looked at before it: all edges of the place that
its own edge leads to if that place remains to be opened, and nothing otherwise. -/
structure IsOpenedAfter (next : κ → List ε) (follow : ε → Option κ) (pending : List κ)
    (es : List ε) (t : Tree (Visit ε)) : Prop where
  map_children : ∀ k, follow (rootEdge t) = some k → Remains follow pending es k →
    t.children.map rootEdge = next k
  children_eq_nil : (∀ k, follow (rootEdge t) = some k → ¬Remains follow pending es k) →
    t.children = []

theorem IsOpenedAfter.append {t : Tree (Visit ε)}
    (h : ∀ k, k ∈ left ↔ Remains follow pending es k)
    (ht : IsOpenedAfter next follow left es' t) :
    IsOpenedAfter next follow pending (es ++ es') t where
  map_children k hk hremains := ht.map_children k hk ((remains_append_iff h).mp hremains)
  children_eq_nil hnone :=
    ht.children_eq_nil fun k hk hremains ↦ hnone k hk ((remains_append_iff h).mpr hremains)

/-! ## Laws of a search -/

namespace Explored

variable [BEq κ] {rest : List κ} {edges : List ε} {forest : List (Tree (Visit ε))}

theorem map_rootEdge (h : Explored next follow pending edges forest rest) :
    forest.map rootEdge = edges := by
  induction h with
  | nil => rfl
  | opened _ _ _ _ _ ihbeside => rw [List.map_cons, ihbeside, rootEdge, value]
  | closed _ _ ih => rw [List.map_cons, ih, rootEdge, value]

variable [LawfulBEq κ]

theorem mem_rest_iff (h : Explored next follow pending edges forest rest) (k : κ) :
    k ∈ rest ↔ Remains follow pending (looked forest) k := by
  induction h generalizing k with
  | nil => rw [looked_nil, Remains, and_iff_left (List.forall_mem_nil _)]
  | opened hfollow _ _ _ ihbelow ihbeside =>
    rw [ihbeside, ← remains_append_iff ihbelow,
      ← remains_append_iff (mem_filter_bne_iff_remains hfollow), looked_cons,
      List.singleton_append]
  | closed hfollow _ ih =>
    rw [ih, ← remains_append_iff (mem_iff_remains hfollow), looked_cons, looked_nil,
      List.nil_append, List.singleton_append]

/-- Every node opens its place if that place remains after the nodes before it. -/
theorem isOpenedAfter (h : Explored next follow pending edges forest rest)
    {front back : List (Tree (Visit ε))} {t : Tree (Visit ε)}
    (hsplit : subtreesAll forest = front ++ t :: back) :
    IsOpenedAfter next follow pending (front.map rootEdge) t := by
  induction h generalizing front back with
  | nil =>
    rw [subtreesAll_nil] at hsplit
    simp at hsplit
  | @opened pending left _ edge _ k below beside hfollow hpending hbelow _ ihbelow ihbeside =>
    rw [subtreesAll_cons] at hsplit
    rcases List.cons_eq_append_iff.mp hsplit with ⟨rfl, hnode⟩ | ⟨front, rfl, htail⟩
    · -- the node itself: its place is pending
      obtain ⟨rfl, -⟩ := List.cons_eq_cons.mp hnode
      refine ⟨fun j hj _ ↦ ?_, fun hnone ↦ ?_⟩
      · rw [rootEdge, value, hfollow, Option.some_inj] at hj
        rw [children, hbelow.map_rootEdge, hj]
      · exact absurd ⟨hpending, List.forall_mem_nil _⟩ (hnone k hfollow)
    · have htaken : ∀ j, j ∈ pending.filter (· != k) ↔ Remains follow pending [edge] j :=
        mem_filter_bne_iff_remains hfollow
      rw [List.map_cons, ← List.singleton_append]
      refine IsOpenedAfter.append htaken ?_
      -- inside, the search starts with what the node leaves; beside, with what the inside leaves
      rcases split_append htail with ⟨behind, hbelow'⟩ | ⟨before, rfl, hbeside'⟩
      · exact ihbelow hbelow'
      · rw [List.map_append, map_rootEdge_subtreesAll]
        exact (ihbeside hbeside').append hbelow.mem_rest_iff
  | closed hfollow _ ih =>
    rw [subtreesAll_cons, subtreesAll_nil, List.nil_append] at hsplit
    rcases List.cons_eq_append_iff.mp hsplit with ⟨rfl, hnode⟩ | ⟨front, rfl, htail⟩
    · obtain ⟨rfl, -⟩ := List.cons_eq_cons.mp hnode
      refine ⟨fun j hj hremains ↦ absurd hremains.1 (hfollow j hj), fun _ ↦ ?_⟩
      rw [children]
    · rw [List.map_cons, ← List.singleton_append]
      exact (ih htail).append (mem_iff_remains hfollow)

/-- A search takes some of the pending places, each once, and looks at the edges that it is given
and at those of the places taken. -/
theorem exists_taken (h : Explored next follow pending edges forest rest)
    (hnodup : pending.Nodup) :
    ∃ taken, pending.Perm (taken ++ rest) ∧
      (looked forest).Perm (edges ++ taken.flatMap next) := by
  induction h with
  | nil pending => exact ⟨[], .refl _, .refl _⟩
  | @opened pending left rest edge edges k below beside hfollow hpending _ _ ihbelow ihbeside =>
    obtain ⟨inside, hinside, hbelow⟩ := ihbelow (hnodup.filter _)
    have hleft : left.Nodup :=
      ((hinside.nodup_iff.mp (hnodup.filter _)).sublist (List.sublist_append_right _ _))
    obtain ⟨outside, houtside, hbeside⟩ := ihbeside hleft
    refine ⟨k :: (inside ++ outside), ?_, ?_⟩
    · -- the place itself comes first, then those below it, then those beside it
      have hfirst : pending.Perm (k :: pending.filter (· != k)) :=
        hnodup.erase_eq_filter k ▸ List.perm_cons_erase hpending
      have hthen := hinside.trans (houtside.append_left inside)
      rw [← List.append_assoc] at hthen
      exact hfirst.trans (hthen.cons k)
    · have hboth := hbelow.append hbeside
      rw [looked_cons, List.flatMap_cons, List.flatMap_append, ← List.append_assoc (next k)]
      exact (hboth.trans (List.perm_append_comm_assoc _ _ _)).cons edge
  | closed _ _ ih =>
    obtain ⟨taken, htaken, hlooked⟩ := ih hnodup
    rw [looked_cons, looked_nil, List.nil_append]
    exact ⟨taken, htaken, hlooked.cons _⟩

end Explored

end Lineage.DepthFirst
