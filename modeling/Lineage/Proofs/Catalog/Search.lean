import Lineage.Catalog.Footprint
import Lineage.Catalog.Users
import Lineage.Proofs.Traversal.DepthFirst

/-!
# Searches through views

A catalog is searched in two directions, from an object to what it needs and from an object to what
needs it, and either search goes on only where an edge ends at a view. The two differ in which end
of an edge is the near one, and in nothing else. So they are treated as one search with a direction,
and it is shown once that such a search looks at exactly the edges whose near end it can reach,
whatever cycles the views form.
-/

open Relation

namespace Lineage.Catalog

variable {c : Catalog} {key : ObjectKey} {e : Edge}

/-! ## Directions -/

/-- A way to follow edges: the end where a search meets an edge, and the end where it goes on, with
the kind that the edge gives to that end. -/
structure Direction where
  near : Edge → ObjectKey
  far : Edge → ObjectKey
  farKind : Edge → ObjectKind

/-- From an object to what it needs. -/
def forward : Direction := ⟨(·.source), (·.target), (·.targetKind)⟩

/-- From an object to what needs it. -/
def backward : Direction := ⟨(·.target), (·.source), (·.sourceKind)⟩

/-- Whether an edge leads from one object to another, which it takes for a view. -/
def LeadsToView (w : Direction) (c : Catalog) (a b : ObjectKey) : Prop :=
  ∃ e ∈ c.edges, w.near e = a ∧ w.far e = b ∧ w.farKind e = .view

/-! ## The search in a direction -/

/-- The edges of an object, in a direction. -/
def edgesAt (w : Direction) (c : Catalog) (key : ObjectKey) : List Edge :=
  c.edges.filter (w.near · == key)

/-- The place that a search goes on to: the far end of an edge if it is a view. -/
def viewAhead (w : Direction) (e : Edge) : Option ObjectKey :=
  if w.farKind e = .view then some (w.far e) else none

theorem mem_edgesAt {w : Direction} : e ∈ edgesAt w c key ↔ e ∈ c.edges ∧ w.near e = key := by
  rw [edgesAt, List.mem_filter, beq_iff_eq]

theorem step_edgesAt (w : Direction) :
    DepthFirst.Step (edgesAt w c) (viewAhead w) = LeadsToView w c := by
  ext a b
  simp only [DepthFirst.Step, LeadsToView, mem_edgesAt, viewAhead, Option.ite_none_right_eq_some,
    Option.some_inj]
  constructor
  · rintro ⟨e, ⟨he, hnear⟩, hkind, hfar⟩
    exact ⟨e, he, hnear, hfar, hkind⟩
  · rintro ⟨e, he, hnear, hfar, hkind⟩
    exact ⟨e, ⟨he, hnear⟩, hkind, hfar⟩

/-- **A search through views looks at the edges that it can reach.** An edge is looked at if and
only if views lead from the start to its near end. -/
theorem mem_search_iff (w : Direction) :
    e ∈ DepthFirst.edgesFrom (edgesAt w c) (viewAhead w)
        ((distinctBy id (c.edges.map w.near)).filter (· != key)) (edgesAt w c key) ↔
      e ∈ c.edges ∧ ReflTransGen (LeadsToView w c) key (w.near e) := by
  rw [DepthFirst.mem_edgesFrom_next_iff, step_edgesAt]
  · constructor
    · rintro ⟨k, hk, he⟩
      obtain ⟨hmem, rfl⟩ := mem_edgesAt.mp he
      exact ⟨hmem, hk⟩
    · rintro ⟨hmem, hreach⟩
      exact ⟨w.near e, hreach, mem_edgesAt.mpr ⟨hmem, rfl⟩⟩
  · -- only the start is not pending and yet has edges
    intro k hk e' he'
    by_cases hkey : k = key
    · exact hkey ▸ he'
    · obtain ⟨hmem, hnear⟩ := mem_edgesAt.mp he'
      have hends : k ∈ (distinctBy id (c.edges.map w.near)).map id :=
        mem_map_distinctBy.mpr (by simpa using ⟨e', hmem, hnear⟩)
      rw [List.map_id] at hends
      refine absurd (List.mem_filter.mpr ⟨hends, ?_⟩) hk
      exact bne_iff_ne.mpr hkey

theorem mem_edgesBehind_iff : e ∈ c.edgesBehind key ↔
    e ∈ c.edges ∧ ReflTransGen (LeadsToView forward c) key e.source :=
  mem_search_iff forward

theorem mem_edgesTo_iff : e ∈ c.edgesTo key ↔
    e ∈ c.edges ∧ ReflTransGen (LeadsToView backward c) key e.target :=
  mem_search_iff backward

end Lineage.Catalog
