import Lineage.Proofs.Traversal.Frames

/-!
# The recursive walk

Told as a recursion, a walk goes through the edges that it is given, one after the other. Where an
edge leads to a place that was not visited, it marks the place and goes through the edges of that
place before it turns to the next edge; any other edge it only meets. `Descends` is this recursion
as a relation, with a rule for each thing that can happen to an edge, so neither a bound on the
depth nor a stack stands in its definition.

The rules exclude each other, so a walk has one outcome (`Descends.unique`). That there is one, and
that it is what the search finds, comes from the search (`Explored.exists_descends`). Its books are
kept by what is pending and those of the walk by what was visited, as for the loop over frames; they
differ over the places without edges, which the walk marks and the search passes over.
-/

namespace Lineage.DepthFirst

variable {κ ε : Type}

/-- Whether a walk through edges meets the edges `met`, in this order. It is given what was visited
before, and has what was visited after it. -/
inductive Descends (next : κ → List ε) (follow : ε → Option κ) :
    List κ → List ε → List ε → List κ → Prop
  /-- Without edges there is nothing to meet. -/
  | nil (visited : List κ) : Descends next follow visited [] [] visited
  /-- An edge to a new place marks it, and the edges of the place come before those beside it. -/
  | enter {visited inner after : List κ} {e : ε} {edges inside beside : List ε} {k : κ}
      (hfollow : follow e = some k) (hnew : k ∉ visited)
      (hinside : Descends next follow (k :: visited) (next k) inside inner)
      (hbeside : Descends next follow inner edges beside after) :
      Descends next follow visited (e :: edges) (e :: (inside ++ beside)) after
  /-- Any other edge is met and nothing more. -/
  | pass {visited after : List κ} {e : ε} {edges beside : List ε}
      (hold : ∀ k, follow e = some k → k ∈ visited)
      (hbeside : Descends next follow visited edges beside after) :
      Descends next follow visited (e :: edges) (e :: beside) after

variable {next : κ → List ε} {follow : ε → Option κ} {visited after : List κ} {edges met : List ε}

namespace Descends

theorem unique {met' : List ε} {after' : List κ}
    (h : Descends next follow visited edges met after)
    (h' : Descends next follow visited edges met' after') : met = met' ∧ after = after' := by
  induction h generalizing met' after' with
  | nil =>
    cases h' with
    | nil => exact ⟨rfl, rfl⟩
  | enter hfollow hnew _ _ ihinside ihbeside =>
    cases h' with
    | enter hfollow' _ hinside' hbeside' =>
      obtain rfl := Option.some_inj.mp (hfollow.symm.trans hfollow')
      obtain ⟨rfl, rfl⟩ := ihinside hinside'
      obtain ⟨rfl, rfl⟩ := ihbeside hbeside'
      exact ⟨rfl, rfl⟩
    | pass hold' _ => exact absurd (hold' _ hfollow) hnew
  | pass hold _ ih =>
    cases h' with
    | enter hfollow' hnew' _ _ => exact absurd (hold _ hfollow') hnew'
    | pass _ hbeside' =>
      obtain ⟨rfl, rfl⟩ := ih hbeside'
      exact ⟨rfl, rfl⟩

theorem map {ε' : Type} {next' : κ → List ε'} {follow' : ε' → Option κ} {g : ε → ε'}
    (hnext : ∀ k, next' k = (next k).map g) (hfollow : ∀ e, follow' (g e) = follow e)
    (h : Descends next follow visited edges met after) :
    Descends next' follow' visited (edges.map g) (met.map g) after := by
  induction h with
  | nil visited => exact .nil visited
  | enter hk hnew _ _ ihinside ihbeside =>
    rw [List.map_cons, List.map_cons, List.map_append]
    rw [← hnext] at ihinside
    exact .enter ((hfollow _).trans hk) hnew ihinside ihbeside
  | pass hold _ ih =>
    rw [List.map_cons, List.map_cons]
    exact .pass (fun k hk ↦ hold k ((hfollow _).symm.trans hk)) ih

end Descends

/-- **The search is the recursive walk.** What the search looks at is what the walk meets, in the
same order. -/
theorem Explored.exists_descends [BEq κ] [LawfulBEq κ] {pending rest : List κ}
    {forest : List (Tree (Visit ε))} (h : Explored next follow pending edges forest rest)
    (htogether : GoTogether next pending visited) :
    ∃ after, GoTogether next rest after ∧
      Descends next follow visited edges (looked forest) after := by
  induction h generalizing visited with
  | nil => exact ⟨visited, htogether, looked_nil ▸ .nil visited⟩
  | @opened _ _ _ _ _ k _ _ hfollow hpending _ _ ihbelow ihbeside =>
    obtain ⟨inner, hinner, hinside⟩ := ihbelow (htogether.opened (k := k))
    obtain ⟨after, hafter, hbeside⟩ := ihbeside hinner
    rw [looked_cons]
    exact ⟨after, hafter, .enter hfollow (htogether.not_mem k hpending) hinside hbeside⟩
  | @closed _ _ e _ _ hfollow _ ih =>
    rw [looked_cons, looked_nil, List.nil_append]
    rcases exists_new_or_forall_visited (follow e) visited with ⟨k, hk, hvisited⟩ | hold
    · -- a place without edges, which the walk enters to find nothing
      obtain ⟨after, hafter, hbeside⟩ := ih (htogether.passed (hfollow k hk))
      have hinside : Descends next follow (k :: visited) (next k) [] (k :: visited) :=
        (htogether.next_eq_nil k hvisited (hfollow k hk)).symm ▸ .nil (k :: visited)
      exact ⟨after, hafter, .enter hk hvisited hinside hbeside⟩
    · obtain ⟨after, hafter, hbeside⟩ := ih htogether
      exact ⟨after, hafter, .pass hold hbeside⟩

end Lineage.DepthFirst
