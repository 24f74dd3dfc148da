import Lineage.Proofs.Catalog.Search
import Lineage.Proofs.Lists
import Lineage.Proofs.Object.Naming

/-!
# Uses of tables, asked from both ends

A catalog is asked in two directions: which tables a program unit uses, and which program units use
a table. The first question is answered by a search that goes on to the targets of dependencies, as
long as they are views; the second by one that goes back to the sources, as long as these are views.
Either search is exactly reachability through views.

## Why the two agree

One search asks for the kind that a dependency gives to its target, the other for the kind that it
gives to its source. They speak of the same views only when every object has one kind throughout.
A path from a unit to a table, with nothing but views in between, then is a path back from the table
to the unit.

The answers are lists of names, and what is equal is the objects that the names stand for: of an
object with several spellings the two answers may give different ones.
-/

open Relation

namespace Lineage.Catalog

variable {c : Catalog} {ds : List Dependency} {key : ObjectKey} {owner name : String}

theorem dependency_mem {e : Edge} (h : e ∈ (ofDependencies ds).edges) : e.dependency ∈ ds := by
  obtain ⟨d, hd, rfl⟩ := List.mem_map.mp h
  exact hd

theorem ofFullName_source (h : IsTidy ds) {e : Edge} (he : e ∈ (ofDependencies ds).edges) :
    ObjectKey.ofFullName e.dependency.source.fullName = e.source := by
  rw [h.ofFullName_fullName (source_mem_namings (dependency_mem he)), e.source_eq]

theorem ofFullName_target (h : IsTidy ds) {e : Edge} (he : e ∈ (ofDependencies ds).edges) :
    ObjectKey.ofFullName e.dependency.target.fullName = e.target := by
  rw [h.ofFullName_fullName (target_mem_namings (dependency_mem he)), e.target_eq]

/-! ## Users as objects -/

/-- The users of an object are the program units with an edge to it or to a view that comes from
it. -/
theorem exists_mem_users_iff (h : IsTidy ds) {p : ObjectKey} :
    (∃ user ∈ (ofDependencies ds).users owner name, ObjectKey.ofFullName user = p) ↔
      ∃ e ∈ (ofDependencies ds).edges,
        ReflTransGen (LeadsToView backward (ofDependencies ds)) (.ofNames owner name) e.target ∧
          e.sourceKind.isProgramUnit = true ∧ e.source = p := by
  rw [users]
  constructor
  · rintro ⟨user, huser, rfl⟩
    obtain ⟨e, he, rfl⟩ := List.mem_map.mp huser
    obtain ⟨he, hkind⟩ := List.mem_filter.mp ((distinctBy_sublist _ _).subset he)
    obtain ⟨hmem, hreach⟩ := mem_edgesTo_iff.mp he
    exact ⟨e, hmem, hreach, hkind, (ofFullName_source h hmem).symm⟩
  · rintro ⟨e, hmem, hreach, hkind, rfl⟩
    have hfound : e ∈ ((ofDependencies ds).edgesTo (.ofNames owner name)).filter
        (·.sourceKind.isProgramUnit) :=
      List.mem_filter.mpr ⟨mem_edgesTo_iff.mpr ⟨hmem, hreach⟩, hkind⟩
    obtain ⟨e', he', hsource⟩ := List.mem_map.mp
      (mem_map_distinctBy.mpr (List.mem_map_of_mem (f := Edge.source) hfound))
    have hfound' := (List.mem_filter.mp ((distinctBy_sublist _ _).subset he')).1
    have hmem' := (mem_edgesTo_iff.mp hfound').1
    exact ⟨_, List.mem_map_of_mem he', (ofFullName_source h hmem').trans hsource⟩

/-! ## Tables of a footprint as objects -/

theorem exists_mem_tablesBehind_iff (h : IsTidy ds) {t : ObjectKey} :
    (∃ table ∈ (ofDependencies ds).tablesBehind key, ObjectKey.ofFullName table = t) ↔
      ∃ e ∈ (ofDependencies ds).edgesBehind key, e.targetKind = .table ∧ e.target = t := by
  rw [← List.mem_map, tablesBehind,
    mem_map_distinctBy_of_factors fun _ _ ↦ ObjectKey.ofFullName_eq_of_asciiFolded_eq, List.map_map]
  simp only [List.mem_map, List.mem_filter, decide_eq_true_eq, Function.comp_apply]
  constructor
  · rintro ⟨e, ⟨he, hkind⟩, rfl⟩
    exact ⟨e, he, hkind, (ofFullName_target h (mem_edgesBehind_iff.mp he).1).symm⟩
  · rintro ⟨e, he, hkind, rfl⟩
    exact ⟨e, ⟨he, hkind⟩, ofFullName_target h (mem_edgesBehind_iff.mp he).1⟩

/-- The first mention of a view has the tables behind it, unless the view is done with. What is said
of a table may depend on the view, but not on how the view is spelled. -/
theorem exists_mem_viewUses_iff {P : ObjectKey → String → Prop} {done : List ObjectKey}
    {edges : List Edge} :
    (∃ u ∈ c.viewUses done edges, ∃ table ∈ u.tables, P (.ofNames u.owner u.name) table) ↔
      ∃ e ∈ edges, e.target ∉ done ∧ ∃ table ∈ c.tablesBehind e.target, P e.target table := by
  induction edges generalizing done with
  | nil => simp [viewUses]
  | cons e edges ih =>
    have hkey : ObjectKey.ofNames e.dependency.target.owner e.dependency.target.name = e.target :=
      e.target_eq.symm
    rw [viewUses, List.exists_mem_cons_iff, List.exists_mem_cons_iff, ih, hkey]
    -- a view that is done with has no tables here; any other is done with afterwards
    by_cases hdone : e.target ∈ done
    · rw [if_pos (List.contains_iff_mem.mpr hdone)]
      constructor
      · rintro (⟨table, htable, -⟩ | ⟨e', he', hnew, htable⟩)
        · exact absurd htable List.not_mem_nil
        · exact Or.inr ⟨e', he', fun hmem ↦ hnew (List.mem_cons_of_mem _ hmem), htable⟩
      · rintro (⟨hnew, -⟩ | ⟨e', he', hnew, htable⟩)
        · exact absurd hdone hnew
        · refine Or.inr ⟨e', he', fun hmem ↦ ?_, htable⟩
          rcases List.mem_cons.mp hmem with heq | hmem
          · exact hnew (heq ▸ hdone)
          · exact hnew hmem
    · rw [if_neg fun hmem ↦ hdone (List.contains_iff_mem.mp hmem)]
      constructor
      · rintro (htable | ⟨e', he', hnew, htable⟩)
        · exact Or.inl ⟨hdone, htable⟩
        · exact Or.inr ⟨e', he', fun hmem ↦ hnew (List.mem_cons_of_mem _ hmem), htable⟩
      · rintro (⟨-, htable⟩ | ⟨e', he', hnew, htable⟩)
        · exact Or.inl htable
        · -- a later mention of the same view has its tables at this one
          by_cases heq : e'.target = e.target
          · exact Or.inl (heq ▸ htable)
          · exact Or.inr ⟨e', he', List.not_mem_cons_of_ne_of_not_mem heq hnew, htable⟩

theorem exists_mem_indirectTables_iff (h : IsTidy ds) {edges : List Edge} {t : ObjectKey} :
    (∃ u ∈ ((ofDependencies ds).viewUses [] edges).flatMap (·.indirectTables),
        ObjectKey.ofNames u.owner u.name = t) ↔
      ∃ e ∈ edges, ∃ e' ∈ (ofDependencies ds).edgesBehind e.target,
        e'.targetKind = .table ∧ e'.target = t := by
  -- the tables of a use are full names of named objects, so they can be read back
  have hnaming : ∀ u ∈ (ofDependencies ds).viewUses [] edges, ∀ table ∈ u.tables,
      ∃ r ∈ namings ds, r.fullName = table := by
    intro u hu table htable
    obtain ⟨e, -, -, _, hbehind, rfl⟩ :=
      (exists_mem_viewUses_iff (P := fun _ name ↦ name = table)).mp ⟨u, hu, table, htable, rfl⟩
    obtain ⟨e', he', rfl⟩ := List.mem_map.mp ((distinctBy_sublist _ _).subset hbehind)
    have hmem := (mem_edgesBehind_iff.mp (List.mem_filter.mp he').1).1
    exact ⟨_, target_mem_namings (dependency_mem hmem), rfl⟩
  have hread : ∀ u ∈ (ofDependencies ds).viewUses [] edges,
      (∃ w ∈ u.indirectTables, ObjectKey.ofNames w.owner w.name = t) ↔
        ∃ table ∈ u.tables, ObjectKey.ofFullName table = t := by
    intro u hu
    simp only [ViewUse.indirectTables, List.mem_map, exists_exists_and_eq_and]
    refine exists_congr fun table ↦ and_congr_right fun htable ↦ ?_
    obtain ⟨r, hr, rfl⟩ := hnaming u hu table htable
    rw [h.splitQualified_fullName hr, h.ofFullName_fullName hr, ObjectRef.key]
  have hviews : (∃ u ∈ (ofDependencies ds).viewUses [] edges,
      ∃ table ∈ u.tables, ObjectKey.ofFullName table = t) ↔ _ :=
    exists_mem_viewUses_iff (P := fun _ table ↦ ObjectKey.ofFullName table = t)
  simp only [exists_mem_tablesBehind_iff h, List.not_mem_nil, not_false_eq_true, true_and] at hviews
  rw [← hviews]
  constructor
  · rintro ⟨w, hw, hkey⟩
    obtain ⟨u, hu, hw⟩ := List.mem_flatMap.mp hw
    exact ⟨u, hu, (hread u hu).mp ⟨w, hw, hkey⟩⟩
  · rintro ⟨u, hu, htable⟩
    obtain ⟨w, hw, hkey⟩ := (hread u hu).mpr htable
    exact ⟨w, List.mem_flatMap.mpr ⟨u, hu, hw⟩, hkey⟩

/-- The tables of a footprint are those that the edges of the object, or of views that it leads to,
lead to. -/
theorem exists_mem_allTables_iff (h : IsTidy ds) {t : ObjectKey} :
    (∃ u ∈ ((ofDependencies ds).footprint owner name).allTables,
        ObjectKey.ofNames u.owner u.name = t) ↔
      ∃ e ∈ (ofDependencies ds).edges,
        ReflTransGen (LeadsToView forward (ofDependencies ds)) (.ofNames owner name) e.source ∧
          e.targetKind = .table ∧ e.target = t := by
  rw [Footprint.allTables, footprint, Footprint.indirectTables]
  have hdirect : ∀ e : Edge, ObjectKey.ofNames e.dependency.target.owner e.dependency.target.name =
      e.target := fun e ↦ e.target_eq.symm
  constructor
  · rintro ⟨u, hu, hkey⟩
    rcases List.mem_append.mp hu with hu | hu
    · obtain ⟨e, he, rfl⟩ := List.mem_map.mp hu
      obtain ⟨he, hkind⟩ := List.mem_filter.mp he
      obtain ⟨hmem, hsource⟩ := mem_outgoing.mp he
      exact ⟨e, hmem, hsource ▸ ReflTransGen.refl, of_decide_eq_true hkind,
        (hdirect e).symm.trans hkey⟩
    · obtain ⟨e, he, e', he', htable⟩ := (exists_mem_indirectTables_iff h).mp ⟨u, hu, hkey⟩
      obtain ⟨he, hkind⟩ := List.mem_filter.mp he
      obtain ⟨hmem', hreach⟩ := mem_edgesBehind_iff.mp he'
      obtain ⟨hmem, hsource⟩ := mem_outgoing.mp he
      have hstep : LeadsToView forward (ofDependencies ds) (.ofNames owner name) e.target :=
        ⟨e, hmem, hsource, rfl, of_decide_eq_true hkind⟩
      exact ⟨e', hmem', hreach.head hstep, htable⟩
  · rintro ⟨e', hmem', hreach, htable⟩
    -- either the edge is one of the object itself, or the first step leads to a view
    rcases ReflTransGen.cases_head_iff.mp hreach with
      hstart | ⟨view, ⟨e, hmem, hsource, rfl, hkind⟩, hreach⟩
    · have hdirect' : e' ∈ ((ofDependencies ds).outgoing (.ofNames owner name)).filter
          (·.targetKind = .table) :=
        List.mem_filter.mpr ⟨mem_outgoing.mpr ⟨hmem', hstart.symm⟩, decide_eq_true htable.1⟩
      exact ⟨_, List.mem_append_left _ (List.mem_map_of_mem hdirect'),
        (hdirect e').trans htable.2⟩
    · have hview : e ∈ ((ofDependencies ds).outgoing (.ofNames owner name)).filter
          (·.targetKind = .view) :=
        List.mem_filter.mpr ⟨mem_outgoing.mpr ⟨hmem, hsource⟩, decide_eq_true hkind⟩
      obtain ⟨u, hu, hkey⟩ := (exists_mem_indirectTables_iff h).mpr
        ⟨e, hview, e', mem_edgesBehind_iff.mpr ⟨hmem', hreach⟩, htable⟩
      exact ⟨u, List.mem_append_right _ hu, hkey⟩

/-! ## From one end to the other -/

/-- A path with nothing but places of a kind in between is one in either direction. -/
theorem exists_path_flip {α : Type} {r : α → α → Prop} {p : α → Prop} {x y : α}
    (h : ∃ k, ReflTransGen (fun a b ↦ r a b ∧ p b) x k ∧ r k y) :
    ∃ k, ReflTransGen (fun a b ↦ r b a ∧ p b) y k ∧ r x k := by
  obtain ⟨k, hxk, hky⟩ := h
  induction hxk using ReflTransGen.head_induction_on with
  | refl => exact ⟨y, ReflTransGen.refl, hky⟩
  | head hstep _ ih =>
    obtain ⟨k', hyk', hk'⟩ := ih
    exact ⟨_, hyk'.tail ⟨hk', hstep.2⟩, hstep.1⟩

/-- Whether an edge leads from one object to another, in a direction. -/
def LeadsTo (w : Direction) (c : Catalog) (a b : ObjectKey) : Prop :=
  ∃ e ∈ c.edges, w.near e = a ∧ w.far e = b

theorem leadsTo_backward_iff {a b : ObjectKey} :
    LeadsTo backward c a b ↔ LeadsTo forward c b a := by
  constructor
  · rintro ⟨e, he, hnear, hfar⟩
    exact ⟨e, he, hfar, hnear⟩
  · rintro ⟨e, he, hnear, hfar⟩
    exact ⟨e, he, hfar, hnear⟩

/-- Whether some naming takes an object for a view. -/
def IsView (ds : List Dependency) (key : ObjectKey) : Prop :=
  ∃ r ∈ namings ds, r.key = key ∧ r.kind = .view

theorem leadsToView_eq (h : IsTidy ds) (w : Direction)
    (hfar : ∀ e ∈ (ofDependencies ds).edges,
      ∃ r ∈ namings ds, r.key = w.far e ∧ r.kind = w.farKind e) :
    LeadsToView w (ofDependencies ds) =
      fun a b ↦ LeadsTo w (ofDependencies ds) a b ∧ IsView ds b := by
  ext a b
  constructor
  · rintro ⟨e, he, rfl, rfl, hkind⟩
    obtain ⟨r, hr, hkey, hfarKind⟩ := hfar e he
    exact ⟨⟨e, he, rfl, rfl⟩, r, hr, hkey, hfarKind.trans hkind⟩
  · rintro ⟨⟨e, he, rfl, rfl⟩, r, hr, hkey, hkind⟩
    obtain ⟨r', hr', hkey', hfarKind⟩ := hfar e he
    have hagrees := h.kind r hr r' hr' (hkey.trans hkey'.symm)
    exact ⟨e, he, rfl, rfl, hfarKind ▸ hagrees.view_iff.mp hkind⟩

theorem leadsToView_forward_eq (h : IsTidy ds) : LeadsToView forward (ofDependencies ds) =
    fun a b ↦ LeadsTo forward (ofDependencies ds) a b ∧ IsView ds b :=
  leadsToView_eq h forward fun e he ↦
    ⟨_, target_mem_namings (dependency_mem he), e.target_eq.symm, rfl⟩

theorem leadsToView_backward_eq (h : IsTidy ds) : LeadsToView backward (ofDependencies ds) =
    fun a b ↦ LeadsTo forward (ofDependencies ds) b a ∧ IsView ds b := by
  rw [leadsToView_eq h backward fun e he ↦
    ⟨_, source_mem_namings (dependency_mem he), e.source_eq.symm, rfl⟩]
  simp only [leadsTo_backward_iff]

/-- **Users and tables agree.** Of tidy dependencies, let `p` be the source of some as a program
unit and `t` nothing but a table, each under any owner and name that stand for it. Then `p` is among
the users of `t` if and only if `t` is among the tables of `p`. -/
theorem mem_users_iff_mem_tables {p t : String × String} (h : IsTidy ds)
    (hp : ∃ d ∈ ds, d.source.key = .ofNames p.1 p.2 ∧ d.source.kind.isProgramUnit = true)
    (ht : ∀ r ∈ namings ds, r.key = .ofNames t.1 t.2 → r.kind = .table) :
    (∃ user ∈ (ofDependencies ds).users t.1 t.2,
        ObjectKey.ofFullName user = .ofNames p.1 p.2) ↔
      ∃ u ∈ ((ofDependencies ds).footprint p.1 p.2).allTables,
        ObjectKey.ofNames u.owner u.name = .ofNames t.1 t.2 := by
  obtain ⟨d, hd, hkey, hunit⟩ := hp
  rw [exists_mem_users_iff h, exists_mem_allTables_iff h, leadsToView_forward_eq h,
    leadsToView_backward_eq h]
  constructor
  · rintro ⟨e, he, hreach, -, hsource⟩
    obtain ⟨k, hk, e', he', hsource', htarget'⟩ := exists_path_flip
      (r := fun a b ↦ LeadsTo forward (ofDependencies ds) b a) ⟨_, hreach, e, he, hsource, rfl⟩
    refine ⟨e', he', (show e'.source = k from hsource').symm ▸ hk, ?_, htarget'⟩
    exact ht _ (target_mem_namings (dependency_mem he')) (e'.target_eq.symm.trans htarget')
  · rintro ⟨e, he, hreach, -, htarget⟩
    obtain ⟨k, hk, e', he', hsource', htarget'⟩ :=
      exists_path_flip ⟨_, hreach, e, he, rfl, htarget⟩
    refine ⟨e', he', (show e'.target = k from htarget').symm ▸ hk, ?_, hsource'⟩
    -- the unit is the source here under a kind that agrees with the one it is known by
    have hagrees := h.kind _ (source_mem_namings hd) _ (source_mem_namings (dependency_mem he'))
      (hkey.trans ((show e'.source = _ from hsource').symm.trans e'.source_eq))
    exact hagrees.isProgramUnit_iff.mp hunit

/-- A procedure that uses two views made from each other, one of them from a table as well. -/
def viewLoop : List Dependency :=
  [⟨⟨"HR", "LOAD", .procedure⟩, ⟨"HR", "STAFF", .view⟩, .hard⟩,
    ⟨⟨"HR", "STAFF", .view⟩, ⟨"HR", "TEAMS", .view⟩, .hard⟩,
    ⟨⟨"HR", "TEAMS", .view⟩, ⟨"HR", "STAFF", .view⟩, .hard⟩,
    ⟨⟨"HR", "TEAMS", .view⟩, ⟨"HR", "DEPT", .table⟩, .hard⟩]

theorem isTidy_viewLoop : IsTidy viewLoop where
  plain := by decide
  kind := by decide

/-- The procedure is found from the table, through both views, and so the table from it. -/
theorem load_uses_dept :
    (∃ user ∈ (ofDependencies viewLoop).users "hr" "dept",
        ObjectKey.ofFullName user = .ofNames "hr" "Load") ∧
      ∃ u ∈ ((ofDependencies viewLoop).footprint "hr" "Load").allTables,
        ObjectKey.ofNames u.owner u.name = .ofNames "hr" "dept" := by
  have hboth := mem_users_iff_mem_tables (p := ("hr", "Load")) (t := ("hr", "dept"))
    isTidy_viewLoop (by decide) (by decide)
  let edges := (ofDependencies viewLoop).edges
  have hteams : LeadsToView backward (ofDependencies viewLoop) (.ofNames "hr" "dept")
      ⟨"HR", "TEAMS"⟩ := ⟨edges[3], List.getElem_mem _, by decide, by decide, rfl⟩
  have hstaff : LeadsToView backward (ofDependencies viewLoop) ⟨"HR", "TEAMS"⟩ ⟨"HR", "STAFF"⟩ :=
    ⟨edges[1], List.getElem_mem _, by decide, by decide, rfl⟩
  have husers : ∃ user ∈ (ofDependencies viewLoop).users "hr" "dept",
      ObjectKey.ofFullName user = .ofNames "hr" "Load" := by
    refine (exists_mem_users_iff isTidy_viewLoop).mpr
      ⟨edges[0], List.getElem_mem _, ?_, rfl, by decide⟩
    exact (ReflTransGen.single hteams).tail hstaff
  exact ⟨husers, hboth.mp husers⟩

end Lineage.Catalog
