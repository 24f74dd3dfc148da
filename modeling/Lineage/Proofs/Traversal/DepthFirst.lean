import Lineage.Traversal.DepthFirst
import Mathlib.Data.List.Basic
import Mathlib.Logic.Relation

/-!
# What a depth-first search looks at

A search is a recursion on the places still pending, with a bound on what it leaves carried along
in its result. Nothing below needs that bound, so the recursion is turned once into a relation,
`Explored`, with one rule for each way in which an edge is treated. Every law of the search is then
an induction on that relation.

The laws say what is looked at and what is left. Places are only ever taken from the pending ones,
no edge leads to a place that is left, and of every place that was taken all edges are looked at.
Together they give the main statement, `mem_edgesFrom_iff`: as long as the places that are not
pending have nothing to add, the edges of a search are those that can be reached at all, in however
many steps and through whatever cycles.
-/

open Relation

namespace Lineage.DepthFirst

variable {κ ε : Type} {next : κ → List ε} {follow : ε → Option κ}

/-! ## The edges of a forest -/

/-- The edges that were looked at, in order. -/
def looked (forest : List (Tree (Visit ε))) : List ε := (Tree.preorderAll forest).map (·.edge)

@[simp] theorem looked_nil : looked ([] : List (Tree (Visit ε))) = [] := by
  rw [looked, Tree.preorderAll_nil, List.map_nil]

@[simp] theorem looked_cons (v : Visit ε) (below beside : List (Tree (Visit ε))) :
    looked (.node v below :: beside) = v.edge :: (looked below ++ looked beside) := by
  rw [looked, Tree.preorderAll_cons, Tree.preorder_node, List.cons_append, List.map_cons,
    List.map_append, looked, looked]

theorem edgesFrom_eq_looked [BEq κ] [LawfulBEq κ] (pending : List κ) (edges : List ε) :
    edgesFrom next follow pending edges = looked (forest next follow pending edges) := rfl

/-! ## A search as a relation -/

variable [BEq κ]

/-- What a search makes of pending places and of edges: a forest, and the places that it leaves. -/
inductive Explored (next : κ → List ε) (follow : ε → Option κ) :
    List κ → List ε → List (Tree (Visit ε)) → List κ → Prop
  /-- Without edges every place is left. -/
  | nil (pending : List κ) : Explored next follow pending [] [] pending
  /-- An edge to a pending place opens it, and what it opens comes before what is beside it. -/
  | opened {pending left rest : List κ} {edge : ε} {edges : List ε} {k : κ}
      {below beside : List (Tree (Visit ε))} (hfollow : follow edge = some k)
      (hpending : k ∈ pending)
      (hbelow : Explored next follow (pending.filter (· != k)) (next k) below left)
      (hbeside : Explored next follow left edges beside rest) :
      Explored next follow pending (edge :: edges) (.node ⟨edge, true⟩ below :: beside) rest
  /-- Any other edge is looked at and nothing more. -/
  | closed {pending rest : List κ} {edge : ε} {edges : List ε} {beside : List (Tree (Visit ε))}
      (hfollow : ∀ k, follow edge = some k → k ∉ pending)
      (hbeside : Explored next follow pending edges beside rest) :
      Explored next follow pending (edge :: edges) (.node ⟨edge, false⟩ [] :: beside) rest

theorem explored_explore [LawfulBEq κ] (next : κ → List ε) (follow : ε → Option κ)
    (pending : List κ) (edges : List ε) :
    Explored next follow pending edges (explore next follow pending edges).1.1
      (explore next follow pending edges).1.2 := by
  induction pending, edges using explore.induct next follow with
  | case1 pending =>
    rw [explore_nil]
    exact .nil pending
  | case2 pending edge edges k h _ below left hleft hexplore ihbelow ihbeside =>
    rw [explore_cons_opened h, hexplore]
    rw [hexplore] at ihbelow
    obtain ⟨hfollow, hcontains⟩ := Option.filter_eq_some_iff.mp h
    exact .opened hfollow (List.contains_iff_mem.mp hcontains) ihbelow ihbeside
  | case3 pending edge edges h ih =>
    rw [explore_cons_closed h]
    refine .closed (fun k hk hmem ↦ ?_) ih
    exact Option.filter_eq_none_iff.mp h k hk (List.contains_iff_mem.mpr hmem)

namespace Explored

variable {pending rest : List κ} {edges : List ε} {forest : List (Tree (Visit ε))}

/-! ## Laws of a search -/

theorem rest_subset (h : Explored next follow pending edges forest rest) : rest ⊆ pending := by
  induction h with
  | nil => exact List.Subset.refl _
  | opened _ _ _ _ ihbelow ihbeside =>
    exact List.Subset.trans (List.Subset.trans ihbeside ihbelow) (List.filter_subset_self _)
  | closed _ _ ih => exact ih

theorem rest_subset_of_filter {k : κ}
    (h : Explored next follow (pending.filter (· != k)) edges forest rest) : rest ⊆ pending :=
  List.Subset.trans h.rest_subset (List.filter_subset_self _)

theorem subset_looked (h : Explored next follow pending edges forest rest) :
    edges ⊆ looked forest := by
  induction h with
  | nil => exact List.nil_subset _
  | opened _ _ _ _ _ ihbeside =>
    rw [looked_cons]
    exact List.cons_subset_cons _ (List.Subset.trans ihbeside (List.subset_append_right _ _))
  | closed _ _ ih =>
    rw [looked_cons, looked_nil, List.nil_append]
    exact List.cons_subset_cons _ ih

/-- What holds of the edges that are given, and of the edges of a place when it holds of an edge to
that place, holds of every edge that is looked at. -/
theorem forall_looked {P : ε → Prop} (h : Explored next follow pending edges forest rest)
    (hstep : ∀ e k, P e → follow e = some k → k ∈ pending → ∀ e' ∈ next k, P e')
    (hedges : ∀ e ∈ edges, P e) : ∀ e ∈ looked forest, P e := by
  induction h with
  | nil => simp
  | opened hfollow hpending hbelow _ ihbelow ihbeside =>
    rw [List.forall_mem_cons] at hedges
    rw [looked_cons, List.forall_mem_cons, List.forall_mem_append]
    refine ⟨hedges.1, ihbelow (fun e k he hk hmem ↦ ?_) ?_, ihbeside (fun e k he hk hmem ↦ ?_) ?_⟩
    · exact hstep e k he hk (List.mem_of_mem_filter hmem)
    · exact hstep _ _ hedges.1 hfollow hpending
    · exact hstep e k he hk (hbelow.rest_subset_of_filter hmem)
    · exact hedges.2
  | closed _ _ ih =>
    rw [List.forall_mem_cons] at hedges
    rw [looked_cons, looked_nil, List.nil_append, List.forall_mem_cons]
    exact ⟨hedges.1, ih hstep hedges.2⟩

variable [LawfulBEq κ]

/-- No edge that is looked at leads to a place that is left. -/
theorem not_mem_rest (h : Explored next follow pending edges forest rest) :
    ∀ e ∈ looked forest, ∀ k, follow e = some k → k ∉ rest := by
  induction h with
  | nil => simp
  | opened hfollow _ hbelow hbeside ihbelow ihbeside =>
    rw [looked_cons, List.forall_mem_cons, List.forall_mem_append]
    refine ⟨fun k hk hrest ↦ ?_, fun e he k hk hrest ↦ ?_, ihbeside⟩
    · have hmem := hbelow.rest_subset (hbeside.rest_subset hrest)
      rw [hfollow, Option.some_inj] at hk
      subst hk
      simp at hmem
    · exact ihbelow e he k hk (hbeside.rest_subset hrest)
  | closed hfollow hbeside ih =>
    rw [looked_cons, looked_nil, List.nil_append, List.forall_mem_cons]
    exact ⟨fun k hk hrest ↦ hfollow k hk (hbeside.rest_subset hrest), ih⟩

theorem next_subset_looked (h : Explored next follow pending edges forest rest) {k : κ}
    (hpending : k ∈ pending) (hrest : k ∉ rest) : next k ⊆ looked forest := by
  induction h with
  | nil => exact absurd hpending hrest
  | @opened pending left _ _ _ j below beside _ _ hbelow _ ihbelow ihbeside =>
    rw [looked_cons]
    by_cases hleft : k ∈ left
    · have hk : next k ⊆ looked below ++ looked beside :=
        List.Subset.trans (ihbeside hleft hrest) (List.subset_append_right _ _)
      exact List.Subset.trans hk (List.subset_cons_self _ _)
    · have hk : next k ⊆ looked below := by
        by_cases hkj : k = j
        · exact hkj ▸ hbelow.subset_looked
        · exact ihbelow (List.mem_filter.mpr ⟨hpending, by simpa using hkj⟩) hleft
      have hk' : next k ⊆ looked below ++ looked beside :=
        List.Subset.trans hk (List.subset_append_left _ _)
      exact List.Subset.trans hk' (List.subset_cons_self _ _)
  | closed _ _ ih =>
    rw [looked_cons, looked_nil, List.nil_append]
    exact List.Subset.trans (ih hpending hrest) (List.subset_cons_self _ _)

end Explored

/-! ## Reachability -/

/-- Whether an edge of one place leads to another. -/
def Step (next : κ → List ε) (follow : ε → Option κ) (a b : κ) : Prop :=
  ∃ e ∈ next a, follow e = some b

/-- Whether an edge is among some edges or belongs to a place that one of them leads to. -/
def Reached (next : κ → List ε) (follow : ε → Option κ) (edges : List ε) (e : ε) : Prop :=
  e ∈ edges ∨
    ∃ e₀ ∈ edges, ∃ a b, follow e₀ = some a ∧ ReflTransGen (Step next follow) a b ∧ e ∈ next b

omit [BEq κ] in
theorem Reached.beyond {edges : List ε} {e e' : ε} {k : κ} (h : Reached next follow edges e)
    (hfollow : follow e = some k) (he' : e' ∈ next k) : Reached next follow edges e' := by
  rcases h with he | ⟨e₀, he₀, a, b, ha, hab, he⟩
  · exact Or.inr ⟨e, he, k, k, hfollow, ReflTransGen.refl, he'⟩
  · exact Or.inr ⟨e₀, he₀, a, k, ha, hab.tail ⟨e, he, hfollow⟩, he'⟩

variable [LawfulBEq κ]

/-- **The edges of a search are those that can be reached.** The places that may not be opened must
not matter: their edges are among those that the search is given. -/
theorem mem_edgesFrom_iff {pending : List κ} {edges : List ε}
    (hpending : ∀ k, k ∉ pending → next k ⊆ edges) {e : ε} :
    e ∈ edgesFrom next follow pending edges ↔ Reached next follow edges e := by
  have hrun := explored_explore next follow pending edges
  -- an edge to a place is looked at only together with the edges of that place
  have hopen : ∀ {e k}, e ∈ edgesFrom next follow pending edges → follow e = some k →
      next k ⊆ edgesFrom next follow pending edges := by
    intro e k he hk
    by_cases hmem : k ∈ pending
    · exact hrun.next_subset_looked hmem (hrun.not_mem_rest e he k hk)
    · exact List.Subset.trans (hpending k hmem) hrun.subset_looked
  constructor
  · refine hrun.forall_looked (P := Reached next follow edges) ?_ (fun _ ↦ Or.inl) e
    intro e k he hk _ e' he'
    exact he.beyond hk he'
  · rintro (he | ⟨e₀, he₀, a, b, ha, hab, he⟩)
    · exact hrun.subset_looked he
    · have hnext : next b ⊆ edgesFrom next follow pending edges := by
        clear he
        induction hab with
        | refl => exact hopen (hrun.subset_looked he₀) ha
        | tail _ hstep ih =>
          obtain ⟨e', he', hb⟩ := hstep
          exact hopen (ih he') hb
      exact hnext he

theorem mem_edgesFrom_next_iff {pending : List κ} {start : κ}
    (hpending : ∀ k, k ∉ pending → next k ⊆ next start) {e : ε} :
    e ∈ edgesFrom next follow pending (next start) ↔
      ∃ k, ReflTransGen (Step next follow) start k ∧ e ∈ next k := by
  rw [mem_edgesFrom_iff hpending, Reached]
  constructor
  · rintro (he | ⟨e₀, he₀, a, b, ha, hab, he⟩)
    · exact ⟨start, ReflTransGen.refl, he⟩
    · exact ⟨b, hab.head ⟨e₀, he₀, ha⟩, he⟩
  · rintro ⟨k, hk, he⟩
    rcases ReflTransGen.cases_head_iff.mp hk with rfl | ⟨a, ⟨e₀, he₀, ha⟩, hak⟩
    · exact Or.inl he
    · exact Or.inr ⟨e₀, he₀, a, k, ha, hak, he⟩

end Lineage.DepthFirst
