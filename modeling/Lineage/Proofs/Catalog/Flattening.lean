import Lineage.Proofs.Catalog.Search
import Lineage.Proofs.Graph.Budget
import Lineage.Proofs.Lists
import Lineage.Proofs.Text.Name
import Lineage.Proofs.Traversal.Descent

/-!
# What is behind a view

A footprint replaces the views that an object uses by the tables behind them. This module says which
tables these are, in which order they come and under which view, whatever views the views are made
from: of one another, of themselves, or several of the same.

## Three readings of one list

The tables behind a view are those at the end of a chain of dependencies that goes through views.
That says which tables are listed, but not in which order; the order is the one in which the
recursive walk from the view meets them. Neither says how often a table is listed. A table is a
name here, and names that differ in the case of ASCII letters alone are listed once, in the spelling
that is met first. Views are told apart by another rule, that of keys, where case is left out of
account for all letters. `IsFlattening` holds the three readings together, with each rule where it
belongs.

## Names that are taken apart again

Under a view its tables are listed by full name. To become uses of tables the names are taken apart
again, which gives back the owner and the name that they were made of if neither has a dot in it and
the owner is not empty.
-/

open Relation

namespace Lineage

namespace Dependency

/-- The dependencies of an object. -/
def ofObject (ds : List Dependency) (key : ObjectKey) : List Dependency :=
  ds.filter (·.source.key == key)

/-- The dependencies of an object on objects of a kind. -/
def ofObjectOn (ds : List Dependency) (key : ObjectKey) (kind : ObjectKind) : List Dependency :=
  (ofObject ds key).filter (·.target.kind = kind)

/-- Whether a dependency on a view leads from one object to another. -/
def LeadsToView (ds : List Dependency) (a b : ObjectKey) : Prop :=
  ∃ d ∈ ds, d.source.key = a ∧ d.target.key = b ∧ d.target.kind = .view

/-- Whether a dependency is the last of a chain that starts at an object. It is one on a table, and
those that come before it are dependencies on views. -/
structure EndsTableUse (ds : List Dependency) (start : ObjectKey) (d : Dependency) : Prop where
  mem : d ∈ ds
  isTable : d.target.kind = .table
  leads : ReflTransGen (LeadsToView ds) start d.source.key

/-- The view that a dependency leads to, if it leads to one. -/
def targetView (d : Dependency) : Option ObjectKey :=
  if d.target.kind = .view then some d.target.key else none

/-- Whether the recursive walk from a view, which goes on at views only, meets some dependencies in
this order. -/
def IsMetFrom (ds : List Dependency) (view : ObjectKey) (met : List Dependency) : Prop :=
  ∃ visited, DepthFirst.Descends (ofObject ds) targetView [view] (ofObject ds view) met visited

/-- The full name of what a dependency needs, without regard to the case of ASCII letters. -/
def foldedTarget (d : Dependency) : List Char := Text.asciiFolded d.target.fullName

/-- Whether some dependencies are those on the tables behind a view. Each ends a chain from the
view, every table at the end of such a chain is among theirs by name, none is there twice, and they
come as the walk from the view meets them first. -/
structure IsFlattening (ds : List Dependency) (view : ObjectKey) (behind : List Dependency) :
    Prop where
  ends : ∀ d ∈ behind, EndsTableUse ds view d
  complete : ∀ d, EndsTableUse ds view d → foldedTarget d ∈ behind.map foldedTarget
  nodup : (behind.map foldedTarget).Nodup
  order : ∃ met, (∀ es, IsMetFrom ds view es ↔ es = met) ∧
    behind = distinctBy foldedTarget (met.filter (·.target.kind = .table))

/-- Whether what dependencies need has names that can be read back from full ones. -/
def NamesReadBack (ds : List Dependency) : Prop :=
  ∀ d ∈ ds, Text.IsPlain d.target.owner ∧ '.' ∉ d.target.name.toList

instance (ds : List Dependency) : Decidable (NamesReadBack ds) :=
  inferInstanceAs (Decidable (∀ d ∈ ds, _ ∧ _))

end Dependency

/-- The object that a use of a view is one of. -/
def ViewUse.key (u : ViewUse) : ObjectKey := .ofNames u.owner u.name

namespace Catalog

open Dependency (EndsTableUse IsFlattening IsMetFrom NamesReadBack foldedTarget ofObject ofObjectOn
  targetView)

variable {c : Catalog} {ds : List Dependency} {view key : ObjectKey} {d : Dependency}
  {edges : List Edge} {kind : ObjectKind}

/-! ## Edges and dependencies -/

theorem map_dependency_outgoing_filter :
    (((ofDependencies ds).outgoing key).filter (·.targetKind = kind)).map (·.dependency) =
      ofObjectOn ds key kind := by
  rw [ofObjectOn, ofObject, ← map_dependency_outgoing, List.filter_map]
  rfl

theorem leadsToView_forward_eq_leadsToView :
    LeadsToView forward (ofDependencies ds) = Dependency.LeadsToView ds :=
  funext₂ fun _ _ ↦ propext exists_mem_edges_iff

/-! ## The tables behind a view -/

/-- The dependencies that the search behind a view looks at. -/
def dependenciesBehind (ds : List Dependency) (view : ObjectKey) : List Dependency :=
  ((ofDependencies ds).edgesBehind view).map (·.dependency)

theorem mem_dependenciesBehind_iff : d ∈ dependenciesBehind ds view ↔
    d ∈ ds ∧ ReflTransGen (Dependency.LeadsToView ds) view d.source.key := by
  rw [dependenciesBehind, mem_map_dependency_iff fun _ ↦ mem_edgesBehind_iff,
    leadsToView_forward_eq_leadsToView]
  rfl

/-- The search behind a view is the recursive walk from it, and nothing else is. -/
theorem isMetFrom_iff {es : List Dependency} :
    IsMetFrom ds view es ↔ es = dependenciesBehind ds view := by
  have hrun := DepthFirst.explored_explore (ofDependencies ds).outgoing viewTarget
    ((ofDependencies ds).sources.filter (· != view)) ((ofDependencies ds).outgoing view)
  obtain ⟨after, -, hwalk⟩ := hrun.exists_descends (goTogether_outgoing _ view)
  have hmet : IsMetFrom ds view (dependenciesBehind ds view) := by
    refine ⟨after, ?_⟩
    rw [ofObject, ← map_dependency_outgoing]
    refine hwalk.map (fun _ ↦ map_dependency_outgoing.symm) fun e ↦ ?_
    rw [targetView, viewTarget, e.target_eq, Edge.targetKind]
  constructor
  · rintro ⟨visited, h⟩
    obtain ⟨visited', h'⟩ := hmet
    exact (h.unique h').1
  · rintro rfl
    exact hmet

/-- The dependencies on the tables behind a view, one for each name. -/
def flattened (ds : List Dependency) (view : ObjectKey) : List Dependency :=
  distinctBy foldedTarget ((dependenciesBehind ds view).filter (·.target.kind = .table))

theorem mem_filter_dependenciesBehind_iff :
    d ∈ (dependenciesBehind ds view).filter (·.target.kind = .table) ↔ EndsTableUse ds view d := by
  rw [List.mem_filter, mem_dependenciesBehind_iff, decide_eq_true_eq]
  constructor
  · rintro ⟨⟨hmem, hleads⟩, htable⟩
    exact ⟨hmem, htable, hleads⟩
  · rintro ⟨hmem, htable, hleads⟩
    exact ⟨⟨hmem, hleads⟩, htable⟩

theorem isFlattening_flattened (ds : List Dependency) (view : ObjectKey) :
    IsFlattening ds view (flattened ds view) where
  ends _ hd := mem_filter_dependenciesBehind_iff.mp ((distinctBy_sublist _ _).subset hd)
  complete _ hd := mem_map_distinctBy.mpr
    (List.mem_map_of_mem (mem_filter_dependenciesBehind_iff.mpr hd))
  nodup := nodup_map_distinctBy _ _
  order := ⟨_, fun _ ↦ isMetFrom_iff, rfl⟩

theorem tablesBehind_eq_map_flattened :
    (ofDependencies ds).tablesBehind view = (flattened ds view).map (·.target.fullName) := by
  have hfolded : foldedTarget = Text.asciiFolded ∘ fun d ↦ d.target.fullName := rfl
  rw [flattened, hfolded, map_distinctBy, tablesBehind, dependenciesBehind, List.filter_map,
    List.map_map]
  rfl

/-! ## Uses of views -/

/-- A use of a view has the tables behind the view, unless the view is done with or was used
before. -/
theorem tables_of_viewUses_eq_append {done : List ObjectKey} {front back : List ViewUse}
    {u : ViewUse} (h : c.viewUses done edges = front ++ u :: back) :
    u.tables = if u.key ∈ done ∨ u.key ∈ front.map ViewUse.key then [] else
      c.tablesBehind u.key := by
  induction edges generalizing done front with
  | nil =>
    rw [viewUses] at h
    exact absurd h.symm (List.append_ne_nil_of_right_ne_nil _ (List.cons_ne_nil _ _))
  | cons e edges ih =>
    have hkey : ObjectKey.ofNames e.dependency.target.owner e.dependency.target.name = e.target :=
      e.target_eq.symm
    rw [viewUses] at h
    rcases List.cons_eq_append_iff.mp h with ⟨rfl, hcons⟩ | ⟨front, rfl, hrest⟩
    · obtain ⟨rfl, -⟩ := List.cons_eq_cons.mp hcons
      simp only [ViewUse.key, hkey, List.contains_iff_mem, List.map_nil, List.not_mem_nil, or_false]
    · -- what the first of the uses makes done counts as used before
      have hused : (u.key ∈ e.target :: done ∨ u.key ∈ front.map ViewUse.key) ↔
          u.key ∈ done ∨ u.key ∈ e.target :: front.map ViewUse.key := by
        rw [List.mem_cons, List.mem_cons, or_assoc, or_left_comm]
      rw [ih hrest, if_congr hused rfl rfl, ← hkey]
      rfl

/-- The first use of the view that an edge leads to. -/
def viewUse (c : Catalog) (e : Edge) : ViewUse :=
  ⟨e.dependency.target.owner, e.dependency.target.name, e.dependency.strength,
    c.tablesBehind e.target⟩

theorem flatMap_indirectTables_viewUses (done : List ObjectKey) :
    (c.viewUses done edges).flatMap (·.indirectTables) =
      ((distinctBy Edge.target edges).filter (·.target ∉ done)).flatMap
        fun e ↦ (c.viewUse e).indirectTables := by
  induction edges generalizing done with
  | nil => rfl
  | cons e edges ih =>
    have hrest : ∀ e' : Edge, e'.target ∉ e.target :: done ↔
        e'.target ∉ done ∧ e'.target ≠ e.target := by
      intro e'
      rw [List.mem_cons, not_or, and_comm]
    rw [viewUses, List.flatMap_cons, ih, distinctBy_cons]
    simp only [hrest]
    by_cases hdone : e.target ∈ done
    · rw [if_pos (List.contains_iff_mem.mpr hdone), List.filter_cons_of_neg (by simpa using hdone),
        List.filter_filter]
      simp [ViewUse.indirectTables]
    · rw [if_neg fun hmem ↦ hdone (List.contains_iff_mem.mp hmem),
        List.filter_cons_of_pos (by simpa using hdone), List.filter_filter, List.flatMap_cons]
      simp [viewUse]

theorem indirectTables_viewUse (h : NamesReadBack ds) (e : Edge) :
    ((ofDependencies ds).viewUse e).indirectTables =
      (flattened ds e.target).map fun d ↦
        ⟨d.target.owner, d.target.name, .ref, some e.dependency.target.fullName⟩ := by
  rw [ViewUse.indirectTables, viewUse, tablesBehind_eq_map_flattened, List.map_map]
  refine List.map_congr_left fun d hd ↦ ?_
  obtain ⟨howner, hname⟩ := h d ((isFlattening_flattened ds e.target).ends d hd).mem
  have hsplit : Text.splitQualified d.target.fullName e.dependency.target.owner =
      (d.target.owner, d.target.name) := by
    rw [ObjectRef.fullName, Text.qualified, if_neg (by simpa using howner.ne_empty)]
    exact Text.splitQualified_of_dot howner.no_dot hname _
  rw [Function.comp_apply, hsplit]
  rfl

theorem map_dependency_distinctBy_target :
    (distinctBy Edge.target edges).map (·.dependency) =
      distinctBy (·.target.key) (edges.map (·.dependency)) := by
  have htarget : Edge.target = (fun d : Dependency ↦ d.target.key) ∘ Edge.dependency :=
    funext Edge.target_eq
  rw [htarget, map_distinctBy]

/-- **A footprint flattens views.** What an object needs is listed by kind, in the order of its
dependencies. There is one list of tables for every view, namely of those at the end of a chain
through views, each name once, as the recursive walk meets them; the first use of a view has the
names in that list, and every later one has none. If the names can be read back, the tables used
through views are these lists one after the other, with the owner and the name of every table and
under the name of the view that the object itself uses. -/
theorem footprint_flattens_views (ds : List Dependency) (owner name : String) :
    let footprint := (ofDependencies ds).footprint owner name
    let needs := ofObjectOn ds (.ofNames owner name)
    footprint.tables =
      (needs .table).map (fun d ↦ ⟨d.target.owner, d.target.name, d.strength, none⟩) ∧
    footprint.views.map (fun u ↦ (u.owner, u.name, u.strength)) =
      (needs .view).map (fun d ↦ (d.target.owner, d.target.name, d.strength)) ∧
    footprint.procedures = (needs .procedure).map (·.target.fullName) ∧
    footprint.functions = (needs .function).map (·.target.fullName) ∧
    footprint.packages = (needs .package).map (·.target.fullName) ∧
    ∃ behind : ObjectKey → List Dependency,
      (∀ view, IsFlattening ds view (behind view)) ∧
      (∀ front u back, footprint.views = front ++ u :: back →
        u.tables = if u.key ∈ front.map ViewUse.key then [] else
          (behind u.key).map (·.target.fullName)) ∧
      (NamesReadBack ds →
        footprint.indirectTables = (distinctBy (·.target.key) (needs .view)).flatMap fun v ↦
          (behind v.target.key).map fun d ↦
            ⟨d.target.owner, d.target.name, .ref, some v.target.fullName⟩) := by
  have hnames : ∀ kind, targetNames kind ((ofDependencies ds).outgoing (.ofNames owner name)) =
      (ofObjectOn ds (.ofNames owner name) kind).map (·.target.fullName) := by
    intro kind
    rw [targetNames, ← map_dependency_outgoing_filter, List.map_map]
    rfl
  refine ⟨?_, ?_, hnames _, hnames _, hnames _, flattened ds, isFlattening_flattened ds, ?_, ?_⟩
  · rw [← map_dependency_outgoing_filter, List.map_map]
    rfl
  · rw [footprint, map_viewUses fun owner name strength ↦ (owner, name, strength),
      ← map_dependency_outgoing_filter, List.map_map]
    rfl
  · -- only the first use of a view walks through it
    intro front u back hsplit
    rw [footprint] at hsplit
    rw [tables_of_viewUses_eq_append hsplit, tablesBehind_eq_map_flattened]
    simp only [List.not_mem_nil, false_or]
  · -- one use for each view is left, and its names give owner and name of the tables
    intro hread
    rw [Footprint.indirectTables, footprint, flatMap_indirectTables_viewUses,
      ← map_dependency_outgoing_filter, ← map_dependency_distinctBy_target, List.flatMap_map,
      List.filter_eq_self.mpr fun _ _ ↦ decide_eq_true List.not_mem_nil]
    refine List.flatMap_congr fun e _ ↦ ?_
    rw [indirectTables_viewUse hread, e.target_eq]

/-- A procedure that names one view in two ways. The view and another are made from each other, and
both from a table that they name in two ways. -/
def staffViews : List Dependency :=
  [⟨⟨"HR", "LOAD", .procedure⟩, ⟨"HR", "STAFF", .view⟩, .hard⟩,
    ⟨⟨"HR", "LOAD", .procedure⟩, ⟨"hr", "Staff", .view⟩, .ref⟩,
    ⟨⟨"HR", "STAFF", .view⟩, ⟨"HR", "TEAMS", .view⟩, .hard⟩,
    ⟨⟨"HR", "STAFF", .view⟩, ⟨"hr", "dept", .table⟩, .hard⟩,
    ⟨⟨"HR", "TEAMS", .view⟩, ⟨"HR", "STAFF", .view⟩, .hard⟩,
    ⟨⟨"HR", "TEAMS", .view⟩, ⟨"HR", "DEPT", .table⟩, .hard⟩,
    ⟨⟨"HR", "TEAMS", .view⟩, ⟨"HR", "SITES", .table⟩, .hard⟩]

theorem isMetFrom_staffViews : IsMetFrom staffViews ⟨"HR", "STAFF"⟩
    [staffViews[2], staffViews[4], staffViews[5], staffViews[6], staffViews[3]] := by
  have hstaff : ofObject staffViews ⟨"HR", "STAFF"⟩ = [staffViews[2], staffViews[3]] := by decide
  have hteams : ofObject staffViews ⟨"HR", "TEAMS"⟩ =
      [staffViews[4], staffViews[5], staffViews[6]] := by decide
  have hinside : DepthFirst.Descends (ofObject staffViews) targetView
      [⟨"HR", "TEAMS"⟩, ⟨"HR", "STAFF"⟩] (ofObject staffViews ⟨"HR", "TEAMS"⟩)
      [staffViews[4], staffViews[5], staffViews[6]] [⟨"HR", "TEAMS"⟩, ⟨"HR", "STAFF"⟩] := by
    rw [hteams]
    exact .pass (by decide) (.pass (by decide) (.pass (by decide) (.nil _)))
  refine ⟨[⟨"HR", "TEAMS"⟩, ⟨"HR", "STAFF"⟩], ?_⟩
  rw [hstaff]
  exact .enter (by decide) (by decide) hinside (.pass (by decide) (.nil _))

/-- The table that both views name is found once, as the walk first meets it. -/
theorem staff_flattens_to_tables : NamesReadBack staffViews ∧
    ((ofDependencies staffViews).footprint "hr" "Load").indirectTables =
      [⟨"HR", "DEPT", .ref, some "HR.STAFF"⟩, ⟨"HR", "SITES", .ref, some "HR.STAFF"⟩] := by
  have hread : NamesReadBack staffViews := by decide
  obtain ⟨-, -, -, -, -, behind, hbehind, -, hindirect⟩ :=
    footprint_flattens_views staffViews "hr" "Load"
  obtain ⟨met, hmet, horder⟩ := (hbehind ⟨"HR", "STAFF"⟩).order
  obtain rfl := (hmet _).mp isMetFrom_staffViews
  have hviews : distinctBy (·.target.key) (ofObjectOn staffViews (.ofNames "hr" "Load") .view) =
      [staffViews[0]] := by decide
  have hkey : staffViews[0].target.key = ⟨"HR", "STAFF"⟩ := by decide
  refine ⟨hread, ?_⟩
  rw [hindirect hread, hviews, List.flatMap_singleton, hkey, horder]
  decide

end Catalog

end Lineage
