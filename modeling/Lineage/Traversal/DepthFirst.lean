import Lineage.Traversal.Tree

/-!
# Depth-first search

One search serves every question that follows edges as far as they go. It looks at the edges of a
place in order, and when an edge leads to a place whose edges have not been looked at, it looks at
those first. The answer is not a set of places but the forest of all edges that were looked at,
each above the edges that it opened; what is asked of the search is then read off the forest.

Places whose edges have not been looked at are `pending`. A place leaves that list when it is
opened, so the search ends whatever cycles the edges form, and every place is opened once.
-/

namespace Lineage

/-- An edge that a search looked at, and whether the place it leads to was opened then. -/
structure Visit (ε : Type) where
  edge : ε
  opened : Bool

namespace DepthFirst

variable {κ ε : Type} [BEq κ] [LawfulBEq κ]

theorem length_filter_ne_lt {k : κ} {pending : List κ} (h : pending.contains k = true) :
    (pending.filter (· != k)).length < pending.length := by
  refine List.length_filter_lt_length_iff_exists.2 ⟨k, List.contains_iff_mem.1 h, ?_⟩
  simp

/-- The forest of the edges reached from `edges`, and the places still pending after it. The edges
of a place are given by `next`, and `follow` gives the place that an edge leads to, if it is to be
followed at all. -/
def explore (next : κ → List ε) (follow : ε → Option κ) (pending : List κ) :
    List ε → { r : List (Tree (Visit ε)) × List κ // r.2.length ≤ pending.length }
  | [] => ⟨([], pending), Nat.le_refl _⟩
  | edge :: edges =>
    match h : (follow edge).filter (pending.contains ·) with
    | some k =>
      have hlt : (pending.filter (· != k)).length < pending.length :=
        length_filter_ne_lt (Option.filter_eq_some_iff.1 h).2
      match explore next follow (pending.filter (· != k)) (next k) with
      | ⟨(below, left), hleft⟩ =>
        let beside := explore next follow left edges
        ⟨(.node ⟨edge, true⟩ below :: beside.1.1, beside.1.2),
          Nat.le_trans beside.2 (Nat.le_trans hleft (Nat.le_of_lt hlt))⟩
    | none =>
      let beside := explore next follow pending edges
      ⟨(.node ⟨edge, false⟩ [] :: beside.1.1, beside.1.2), beside.2⟩
termination_by edges => (pending.length, edges.length)
decreasing_by
  · exact Prod.Lex.left _ _ hlt
  · exact Prod.Lex.left _ _ (Nat.lt_of_le_of_lt hleft hlt)
  · exact Prod.Lex.right _ (by simp)

theorem explore_nil {next : κ → List ε} {follow : ε → Option κ} {pending : List κ} :
    (explore next follow pending []).1 = ([], pending) := by
  rw [explore]

theorem explore_cons_opened {next : κ → List ε} {follow : ε → Option κ} {pending : List κ}
    {edge : ε} {edges : List ε} {k : κ}
    (h : (follow edge).filter (pending.contains ·) = some k) :
    (explore next follow pending (edge :: edges)).1 =
      let below := (explore next follow (pending.filter (· != k)) (next k)).1
      let beside := (explore next follow below.2 edges).1
      (.node ⟨edge, true⟩ below.1 :: beside.1, beside.2) := by
  rw [explore]
  split
  · rename_i k' h'
    rw [h] at h'
    cases h'
    rfl
  · rename_i h'
    rw [h] at h'
    cases h'

theorem explore_cons_closed {next : κ → List ε} {follow : ε → Option κ} {pending : List κ}
    {edge : ε} {edges : List ε} (h : (follow edge).filter (pending.contains ·) = none) :
    (explore next follow pending (edge :: edges)).1 =
      let beside := (explore next follow pending edges).1
      (.node ⟨edge, false⟩ [] :: beside.1, beside.2) := by
  rw [explore]
  split
  · rename_i h'
    rw [h] at h'
    cases h'
  · rfl

/-- The forest of the edges reached from `edges` when every place in `pending` may be opened. -/
def forest (next : κ → List ε) (follow : ε → Option κ) (pending : List κ) (edges : List ε) :
    List (Tree (Visit ε)) :=
  (explore next follow pending edges).1.1

/-- The edges reached from `edges`, in the order in which they are looked at. -/
def edgesFrom (next : κ → List ε) (follow : ε → Option κ) (pending : List κ)
    (edges : List ε) : List ε :=
  (Tree.preorderAll (forest next follow pending edges)).map (·.edge)

end DepthFirst

end Lineage
