import Lineage.Proofs.Catalog.TableUse
import Lineage.Reconciliation.Basic

/-!
# The two sides of a reconciliation

Both sides come down to names in upper case, and that is where spelling ceases to matter. On the
side of the catalog, order decides how things are spelled: of the spellings of a table behind a view
the first one is kept, and the first mention of a view gives its owner to the tables that have none.
But the spellings of a table behind a view differ in the case of ASCII letters, which moves no dot
and leaves the upper case as it is, and the owners that the mentions of a view give have the same
upper case, being owners of one key. So which names are listed is a matter of which dependencies
there are, and `mem_listedNames_iff` says which.
-/

open Relation

namespace Lineage

namespace Catalog

variable {c : Catalog} {key : ObjectKey}

/-! ## The names that a catalog lists -/

/-- The names, in upper case, that a catalog lists for the object of an owner and name. -/
def listedNames (c : Catalog) (owner name : String) : List String :=
  (c.footprint owner name).neededObjects.map (Text.upcase ·.fullName)

/-- Whether an edge of an object puts a name on the list: that of its target, if this is a table or
a view, or that of a table behind the view. -/
def ListsBy (c : Catalog) (e : Edge) (name : String) : Prop :=
  (e.targetKind = .table ∨ e.targetKind = .view) ∧
      Text.upcase e.dependency.target.fullName = name ∨
    e.targetKind = .view ∧ ∃ e' ∈ c.edgesBehind e.target, e'.targetKind = .table ∧
      Text.upcase (Text.inFull e'.dependency.target.fullName e.dependency.target.owner) = name

/-- The tables behind a view, under the owner of any mention of it, have the names of the targets of
the edges behind it. -/
theorem exists_mem_tablesBehind_inFull_iff {owner name : String} :
    (∃ table ∈ c.tablesBehind key, Text.upcase (Text.inFull table owner) = name) ↔
      ∃ e ∈ c.edgesBehind key, e.targetKind = .table ∧
        Text.upcase (Text.inFull e.dependency.target.fullName owner) = name := by
  rw [← List.mem_map (f := fun table ↦ Text.upcase (Text.inFull table owner)), tablesBehind,
    mem_map_distinctBy_of_factors fun _ _ h ↦ Text.upcase_inFull_congr h rfl, List.map_map]
  simp only [List.mem_map, List.mem_filter, decide_eq_true_eq, Function.comp_apply, and_assoc]

theorem exists_mem_indirectTables_fullName_iff {edges : List Edge} {name : String} :
    (∃ u ∈ (c.viewUses [] edges).flatMap (·.indirectTables), Text.upcase u.fullName = name) ↔
      ∃ e ∈ edges, ∃ e' ∈ c.edgesBehind e.target, e'.targetKind = .table ∧
        Text.upcase (Text.inFull e'.dependency.target.fullName e.dependency.target.owner) =
          name := by
  -- a table has its name from some spelling of the owner of the view
  let named (view : ObjectKey) (table : String) : Prop :=
    ∃ owner, Text.upcase owner = view.owner ∧ Text.upcase (Text.inFull table owner) = name
  have hnamed : ∀ (owner : String) (view : ObjectKey) (table : String),
      Text.upcase owner = view.owner →
        (named view table ↔ Text.upcase (Text.inFull table owner) = name) := by
    intro owner view table howner
    constructor
    · rintro ⟨owner', howner', hname⟩
      rwa [Text.upcase_inFull_congr rfl (howner.trans howner'.symm)]
    · exact fun hname ↦ ⟨owner, howner, hname⟩
  have hviews : (∃ u ∈ c.viewUses [] edges, ∃ table ∈ u.tables,
      named (.ofNames u.owner u.name) table) ↔ _ := exists_mem_viewUses_iff (P := named)
  have huse : ∀ u : ViewUse, (∃ w ∈ u.indirectTables, Text.upcase w.fullName = name) ↔
      ∃ table ∈ u.tables, named (.ofNames u.owner u.name) table := by
    intro u
    simp only [ViewUse.indirectTables, List.mem_map, exists_exists_and_eq_and]
    exact exists_congr fun table ↦ and_congr_right fun _ ↦ (hnamed u.owner _ table rfl).symm
  have hedge : ∀ e : Edge, (∃ table ∈ c.tablesBehind e.target, named e.target table) ↔
      ∃ e' ∈ c.edgesBehind e.target, e'.targetKind = .table ∧
        Text.upcase (Text.inFull e'.dependency.target.fullName e.dependency.target.owner) =
          name := by
    intro e
    rw [← exists_mem_tablesBehind_inFull_iff]
    refine exists_congr fun table ↦ and_congr_right fun _ ↦ hnamed _ _ table ?_
    exact congrArg ObjectKey.owner e.target_eq.symm
  simp only [List.not_mem_nil, not_false_eq_true, true_and, hedge, ← huse] at hviews
  rw [← hviews]
  simp only [List.mem_flatMap]
  constructor
  · rintro ⟨w, ⟨u, hu, hw⟩, hname⟩
    exact ⟨u, hu, w, hw, hname⟩
  · rintro ⟨u, hu, w, hw, hname⟩
    exact ⟨w, ⟨u, hu, hw⟩, hname⟩

/-- A name is listed for an object if and only if some edge of the object puts it on the list. -/
theorem mem_listedNames_iff {owner name listed : String} :
    listed ∈ c.listedNames owner name ↔
      ∃ e ∈ c.outgoing (.ofNames owner name), c.ListsBy e listed := by
  -- the names are those of three lists, and the edges of the object make each of them
  let edges := c.outgoing (.ofNames owner name)
  have htables : listed ∈ ((c.footprint owner name).tables.map fun t ↦ Text.upcase t.fullName) ↔
      ∃ e ∈ edges, e.targetKind = .table ∧ Text.upcase e.dependency.target.fullName = listed := by
    rw [footprint, List.map_map]
    simp only [List.mem_map, List.mem_filter, decide_eq_true_eq, and_assoc]
    rfl
  have hviews : listed ∈ ((c.footprint owner name).views.map fun v ↦ Text.upcase v.fullName) ↔
      ∃ e ∈ edges, e.targetKind = .view ∧ Text.upcase e.dependency.target.fullName = listed := by
    have hnames := map_viewUses (fun owner name _ ↦ Text.upcase (Text.qualified owner name)) c []
      (edges.filter (·.targetKind = .view))
    rw [footprint]
    refine (iff_of_eq (congrArg (listed ∈ ·) hnames)).trans ?_
    simp only [List.mem_map, List.mem_filter, decide_eq_true_eq, and_assoc]
    rfl
  have hbehind : listed ∈
      ((c.footprint owner name).indirectTables.map fun t ↦ Text.upcase t.fullName) ↔
        ∃ e ∈ edges, e.targetKind = .view ∧ ∃ e' ∈ c.edgesBehind e.target,
          e'.targetKind = .table ∧ Text.upcase
            (Text.inFull e'.dependency.target.fullName e.dependency.target.owner) = listed := by
    rw [List.mem_map, Footprint.indirectTables, footprint, exists_mem_indirectTables_fullName_iff]
    simp only [List.mem_filter, decide_eq_true_eq, and_assoc]
    rfl
  rw [listedNames, Footprint.neededObjects, List.map_append, List.map_append, List.map_map,
    List.map_map, List.map_map, List.mem_append, List.mem_append]
  constructor
  · rintro ((h | h) | h)
    · obtain ⟨e, he, hkind, hname⟩ := htables.mp h
      exact ⟨e, he, Or.inl ⟨Or.inl hkind, hname⟩⟩
    · obtain ⟨e, he, hkind, hname⟩ := hviews.mp h
      exact ⟨e, he, Or.inl ⟨Or.inr hkind, hname⟩⟩
    · obtain ⟨e, he, hkind, hname⟩ := hbehind.mp h
      exact ⟨e, he, Or.inr ⟨hkind, hname⟩⟩
  · rintro ⟨e, he, ⟨hkind | hkind, hname⟩ | ⟨hkind, hname⟩⟩
    · exact Or.inl (Or.inl (htables.mpr ⟨e, he, hkind, hname⟩))
    · exact Or.inl (Or.inr (hviews.mpr ⟨e, he, hkind, hname⟩))
    · exact Or.inr (hbehind.mpr ⟨e, he, hkind, hname⟩)

end Catalog

/-! ## The objects that a source text names -/

namespace Reconciliation

/-- A table that the source text of an object refers to; `owner` is that of the object. -/
def namedTable (owner table : String) : NeededObject :=
  ⟨⟨(Text.splitQualified table owner).1, (Text.splitQualified table owner).2, .table⟩, .ref,
    .sourceText⟩

/-- A package that the source text of an object calls. -/
def namedPackage (owner package : String) : NeededObject :=
  ⟨⟨owner, package, .package⟩, .ref, .sourceText⟩

theorem namedBy_eq (owner : String) (a : Source.Analysis) :
    namedBy owner a =
      a.allTables.map (namedTable owner) ++ a.packageCalls.map (namedPackage owner) := rfl

end Reconciliation

namespace Reconciler

theorem named_reconcile_congr {r r' : Reconciler} (h : r.sources = r'.sources)
    (owner name : String) :
    (r.reconcile owner name).named = (r'.reconcile owner name).named := by
  rw [Reconciliation.named, Reconciliation.named, reconcile, reconcile, sourceOf?, sourceOf?, h]

theorem unlisted_reconcile (r : Reconciler) (owner name : String) :
    (r.reconcile owner name).unlisted =
      ((r.reconcile owner name).named.filter fun o ↦
        !(r.catalog.listedNames owner name).contains (Text.upcase o.fullName)).map
          ({ · with evidence := .sourceTextOnly }) := rfl

end Reconciler

end Lineage
