import Lineage.Proofs.Reconciliation.Sides
import Lineage.Proofs.Source.Reference
import Lineage.Reconciliation.Findings
import Mathlib.Data.List.Pairwise

/-!
# Repeats among what is not listed

The tables found in a source text are kept free of repeats as they are spelled there, but what is
reported are objects, and a bare name becomes an object only with the owner of the text. So a table
that stands in a text both alone and under that owner is there twice, and it is reported twice
unless the catalog lists it. Nothing else is repeated: no spelling is found twice, in whatever case,
and a table and a package are never one object.

The finding of an object shows its name in full and its kind. Both can be read back from the
message, as a name that is found has no dot and no kind has a parenthesis. So findings repeat each
other exactly if the objects do.
-/

namespace Lineage

/-! ## Objects that agree -/

namespace NeededObject

variable {o o' : NeededObject}

theorem agreesWith_iff :
    o.agreesWith o' = true ↔
      (Text.asciiFolded o.object.owner = Text.asciiFolded o'.object.owner ∧
        Text.asciiFolded o.object.name = Text.asciiFolded o'.object.name) ∧
      o.object.kind = o'.object.kind := by
  rw [agreesWith, Bool.and_eq_true, Bool.and_eq_true, Text.eqIgnoringAsciiCase_iff,
    Text.eqIgnoringAsciiCase_iff, decide_eq_true_eq]

theorem agreesWith_comm : o.agreesWith o' = o'.agreesWith o := by
  rw [Bool.eq_iff_iff, agreesWith_iff, agreesWith_iff]
  exact and_congr (and_congr eq_comm eq_comm) eq_comm

theorem upcase_fullName_of_agreesWith (h : o.agreesWith o' = true) :
    Text.upcase o.fullName = Text.upcase o'.fullName := by
  obtain ⟨⟨howner, hname⟩, -⟩ := agreesWith_iff.mp h
  rw [fullName, fullName, ObjectRef.fullName, ObjectRef.fullName, Text.upcase_qualified,
    Text.upcase_qualified, Text.upcase_eq_of_asciiFolded_eq howner,
    Text.upcase_eq_of_asciiFolded_eq hname]

end NeededObject

namespace Reconciliation

/-! ## Tables that are named twice -/

/-- Whether a reference is a bare name, and another one is that name under an owner, up to case. -/
def IsBareOf (owner bare full : String) : Prop :=
  '.' ∉ bare.toList ∧ Text.asciiFolded full = Text.asciiFolded (owner ++ "." ++ bare)

/-- Whether a name is one of some tables both alone and under an owner. -/
def StandsTwice (owner : String) (tables : List String) (table : String) : Prop :=
  table ∈ tables ∧ ∃ full ∈ tables, IsBareOf owner table full

theorem agreesWith_namedTable_bare_qualified {owner bare other name : String}
    (hbare : '.' ∉ bare.toList) (hother : '.' ∉ other.toList) (hname : '.' ∉ name.toList) :
    (namedTable owner bare).agreesWith (namedTable owner (other ++ "." ++ name)) = true ↔
      IsBareOf owner bare (other ++ "." ++ name) := by
  rw [NeededObject.agreesWith_iff, namedTable, namedTable, Text.splitQualified_of_bare hbare,
    Text.splitQualified_of_dot hother hname, IsBareOf, Text.asciiFolded_dotted_inj hname hbare,
    and_iff_right hbare, and_iff_left rfl]
  exact and_congr eq_comm eq_comm

/-- Two references are one table if they are spelled alike, or one of them is the other one under
the owner of the text. -/
theorem agreesWith_namedTable_iff {owner x y : String} (hx : Text.IsReference x)
    (hy : Text.IsReference y) :
    (namedTable owner x).agreesWith (namedTable owner y) = true ↔
      Text.asciiFolded x = Text.asciiFolded y ∨ IsBareOf owner x y ∨ IsBareOf owner y x := by
  -- a bare name is spelled like nothing that has a dot
  have hbare : ∀ {name : String}, '.' ∉ name.toList → ∀ o n : String,
      Text.asciiFolded name ≠ Text.asciiFolded (o ++ "." ++ n) := by
    intro name hname o n h
    exact hname (Text.dot_mem_asciiFolded.mp (h ▸ Text.dot_mem_asciiFolded_dotted o n))
  have hdot : ∀ o n : String, '.' ∈ (o ++ "." ++ n).toList :=
    fun o n ↦ Text.dot_mem_asciiFolded.mp (Text.dot_mem_asciiFolded_dotted o n)
  cases hx with
  | bare hx =>
    cases hy with
    | bare hy =>
      rw [NeededObject.agreesWith_iff, namedTable, namedTable, Text.splitQualified_of_bare hx,
        Text.splitQualified_of_bare hy]
      simp only [IsBareOf, hbare hx, hbare hy, true_and, and_true, and_false, or_false]
    | qualified hother hname =>
      rw [agreesWith_namedTable_bare_qualified hx hother hname]
      simp only [hbare hx, IsBareOf, hdot, not_true, false_and, false_or, or_false]
  | qualified hother hname =>
    cases hy with
    | bare hy =>
      rw [NeededObject.agreesWith_comm, agreesWith_namedTable_bare_qualified hy hother hname]
      simp only [(hbare hy _ _).symm, IsBareOf, hdot, not_true, false_and, false_or]
    | qualified hother' hname' =>
      rw [NeededObject.agreesWith_iff, namedTable, namedTable,
        Text.splitQualified_of_dot hother hname, Text.splitQualified_of_dot hother' hname',
        Text.asciiFolded_dotted_inj hname hname']
      simp only [IsBareOf, hdot, not_true, false_and, and_true, or_false]

/-- Of tables that are spelled differently, those that are not listed are pairwise different objects
exactly if every name that stands twice is listed. -/
theorem pairwise_namedTable_iff (owner : String) (listed : List String) {tables : List String}
    (hreference : ∀ table ∈ tables, Text.IsReference table)
    (hnodup : (tables.map Text.upcase).Nodup) :
    ((tables.filter fun x ↦
        !listed.contains (Text.upcase (namedTable owner x).fullName)).Pairwise fun x y ↦
          ¬(namedTable owner x).agreesWith (namedTable owner y) = true) ↔
      ∀ table, StandsTwice owner tables table →
        Text.upcase (Text.qualified owner table) ∈ listed := by
  let isUnlisted (x : String) : Bool :=
    !listed.contains (Text.upcase (namedTable owner x).fullName)
  have hkept : ∀ x, x ∈ tables.filter isUnlisted ↔
      x ∈ tables ∧ Text.upcase (namedTable owner x).fullName ∉ listed := by
    intro x
    rw [List.mem_filter, Bool.not_eq_true', ← Bool.not_eq_true, List.contains_iff_mem]
  have hsymm : Std.Symm fun x y ↦ ¬(namedTable owner x).agreesWith (namedTable owner y) = true :=
    ⟨fun x y h ↦ NeededObject.agreesWith_comm ▸ h⟩
  have hfullName : ∀ {x y : String}, IsBareOf owner x y →
      (namedTable owner x).fullName = Text.qualified owner x := by
    intro x y h
    rw [namedTable, Text.splitQualified_of_bare h.1]
    rfl
  constructor
  · rintro h table ⟨hmem, full, hfull, hbareOf⟩
    have hagree := (agreesWith_namedTable_iff (hreference table hmem) (hreference full hfull)).mpr
      (Or.inr (Or.inl hbareOf))
    have hsame := NeededObject.upcase_fullName_of_agreesWith hagree
    have hne : table ≠ full := by
      rintro rfl
      exact hbareOf.1 (Text.dot_mem_asciiFolded.mp
        (hbareOf.2 ▸ Text.dot_mem_asciiFolded_dotted owner table))
    rw [← hfullName hbareOf]
    by_contra hnot
    -- neither spelling is listed, so both are kept and must differ as objects
    exact h.forall ((hkept table).mpr ⟨hmem, hnot⟩) ((hkept full).mpr ⟨hfull, hsame ▸ hnot⟩) hne
      hagree
  · intro h
    have hspelled := (List.pairwise_map.mp hnodup).filter isUnlisted
    refine hspelled.imp_of_mem fun {x y} hx hy hne hagree ↦ ?_
    obtain ⟨hx, hxlisted⟩ := (hkept x).mp hx
    obtain ⟨hy, hylisted⟩ := (hkept y).mp hy
    rcases (agreesWith_namedTable_iff (hreference x hx) (hreference y hy)).mp hagree with
      hsame | hbareOf | hbareOf
    · exact hne (Text.upcase_eq_of_asciiFolded_eq hsame)
    · exact hxlisted (hfullName hbareOf ▸ h x ⟨hx, y, hy, hbareOf⟩)
    · exact hylisted (hfullName hbareOf ▸ h y ⟨hy, x, hx, hbareOf⟩)

theorem pairwise_namedPackage (owner : String) {packages : List String}
    (hnodup : (packages.map Text.upcase).Nodup) :
    packages.Pairwise fun x y ↦
      ¬(namedPackage owner x).agreesWith (namedPackage owner y) = true := by
  refine (List.pairwise_map.mp hnodup).imp fun hne hagree ↦ hne ?_
  exact Text.upcase_eq_of_asciiFolded_eq (NeededObject.agreesWith_iff.mp hagree).1.2

theorem not_agreesWith_namedPackage (owner table package : String) :
    ¬(namedTable owner table).agreesWith (namedPackage owner package) = true := by
  intro h
  cases (NeededObject.agreesWith_iff.mp h).2

end Reconciliation

namespace Reconciler

variable {r : Reconciler} {owner name source : String}

theorem named_reconcile_of_source (h : r.sourceOf? owner name = some source) :
    (r.reconcile owner name).named =
      (Source.analyze source).allTables.map (Reconciliation.namedTable owner) ++
        (Source.analyze source).packageCalls.map (Reconciliation.namedPackage owner) := by
  rw [Reconciliation.named, reconcile, h, Option.map_some, Option.map_some, Option.getD_some,
    Reconciliation.namedBy_eq]

theorem named_reconcile_of_no_source (h : r.sourceOf? owner name = none) :
    (r.reconcile owner name).named = [] := by
  rw [Reconciliation.named, reconcile, h, Option.map_none, Option.map_none, Option.getD_none]

/-- Whether the catalog lists, for an object, every name that stands in its source text twice. -/
def ListsRepeats (r : Reconciler) (owner name : String) : Prop :=
  ∀ a ∈ (r.reconcile owner name).analysis, ∀ table,
    Reconciliation.StandsTwice owner a.allTables table →
      Text.upcase (Text.qualified owner table) ∈ r.catalog.listedNames owner name

/-- The objects that are not listed are pairwise different exactly if the catalog lists every name
that stands in the source text twice. -/
theorem pairwise_unlisted_iff (r : Reconciler) (owner name : String) :
    ((r.reconcile owner name).unlisted.Pairwise fun o o' ↦ ¬o.agreesWith o' = true) ↔
      r.ListsRepeats owner name := by
  rw [unlisted_reconcile, List.pairwise_map]
  cases hsource : r.sourceOf? owner name with
  | none =>
    rw [named_reconcile_of_no_source hsource, ListsRepeats, reconcile, hsource]
    simp
  | some source =>
    have hpackages := Reconciliation.pairwise_namedPackage owner
      (Source.nodup_map_upcase_packageCalls source)
    have htables := Reconciliation.pairwise_namedTable_iff owner
      (r.catalog.listedNames owner name) (fun _ ↦ Source.isReference_of_mem_allTables)
      (Source.nodup_map_upcase_allTables (Source.analyze source))
    rw [named_reconcile_of_source hsource, List.filter_append, List.pairwise_append,
      List.filter_map, List.filter_map, List.pairwise_map, List.pairwise_map, ListsRepeats,
      reconcile, hsource]
    simp only [Option.map_some, Option.mem_some_iff, forall_eq']
    rw [← htables]
    -- packages differ from tables and from each other, so only two tables can agree
    constructor
    · exact fun h ↦ h.1
    · refine fun h ↦ ⟨h, hpackages.filter _, ?_⟩
      intro o ho o' ho'
      obtain ⟨table, -, rfl⟩ := List.mem_map.mp ho
      obtain ⟨package, -, rfl⟩ := List.mem_map.mp ho'
      exact Reconciliation.not_agreesWith_namedPackage owner table package

end Reconciler

/-! ## Findings that repeat each other -/

theorem ObjectKind.mem_all (kind : ObjectKind) : kind ∈ ObjectKind.all := by
  cases kind <;> decide

theorem ObjectKind.asciiFolded_text_inj {kind kind' : ObjectKind} :
    Text.asciiFolded kind.text = Text.asciiFolded kind'.text ↔ kind = kind' := by
  have h : ∀ k ∈ ObjectKind.all, ∀ k' ∈ ObjectKind.all,
      Text.asciiFolded k.text = Text.asciiFolded k'.text → k = k' := by decide
  exact ⟨h kind kind.mem_all kind' kind'.mem_all, fun heq ↦ heq ▸ rfl⟩

theorem ObjectKind.parenthesis_not_mem_text (kind : ObjectKind) :
    '(' ∉ Text.asciiFolded kind.text := by
  have h : ∀ k ∈ ObjectKind.all, '(' ∉ Text.asciiFolded k.text := by decide
  exact h kind kind.mem_all

namespace Reconciliation

variable {settings : Settings} {r : Reconciliation} {o o' : NeededObject}

theorem asciiFolded_message_unlistedFinding :
    Text.asciiFolded (r.unlistedFinding settings o).message =
      Text.asciiFolded (o.fullName ++ " ") ++ '(' :: Text.asciiFolded o.object.kind.text ++
        Text.asciiFolded ") is referenced in source but not recorded in the catalog" := by
  have hmessage : (r.unlistedFinding settings o).message =
      o.fullName ++ " (" ++ o.object.kind.text ++
        ") is referenced in source but not recorded in the catalog" := rfl
  have hopen : Text.asciiFolded (o.fullName ++ " (") =
      Text.asciiFolded (o.fullName ++ " ") ++ ['('] := by
    rw [Text.asciiFolded_append, Text.asciiFolded_append, List.append_assoc]
    rfl
  rw [hmessage, Text.asciiFolded_append, Text.asciiFolded_append, hopen, List.append_assoc _ ['(']]
  rfl

theorem asciiFolded_message_unlistedFinding_inj (ho : '.' ∉ o.object.name.toList)
    (ho' : '.' ∉ o'.object.name.toList) :
    Text.asciiFolded (r.unlistedFinding settings o).message =
        Text.asciiFolded (r.unlistedFinding settings o').message ↔
      o.agreesWith o' = true := by
  have hname : Text.asciiFolded (o.fullName ++ " ") = Text.asciiFolded (o'.fullName ++ " ") ↔
      Text.asciiFolded o.fullName = Text.asciiFolded o'.fullName := by
    rw [Text.asciiFolded_append, Text.asciiFolded_append, List.append_left_inj]
  rw [asciiFolded_message_unlistedFinding, asciiFolded_message_unlistedFinding,
    List.append_left_inj, NeededObject.agreesWith_iff, ← Text.asciiFolded_qualified_inj ho ho',
    ← ObjectKind.asciiFolded_text_inj]
  constructor
  · intro h
    obtain ⟨hfull, hkind⟩ := append_cons_inj_of_not_mem (ObjectKind.parenthesis_not_mem_text _)
      (ObjectKind.parenthesis_not_mem_text _) h
    exact ⟨hname.mp hfull, hkind⟩
  · rintro ⟨hfull, hkind⟩
    rw [hname.mpr hfull, hkind]

theorem filter_sourceOnly_findings (settings : Settings) (r : Reconciliation) :
    (r.findings settings).filter (·.code = .sourceOnly) =
      if settings.allowlist.skips r.fullName then []
      else r.unlisted.map (r.unlistedFinding settings) := by
  -- of the three kinds of findings only those on objects that are not listed are kept
  have hunavailable :
      (if r.hasSource then [] else [r.unavailableFinding settings]).filter
        (·.code = .sourceOnly) = [] := by
    split <;> rfl
  have hdynamic :
      (if settings.allowlist.allowsDynamicSql r.fullName then []
        else r.warning?.toList.map (r.finding settings .dynamicSql)).filter
          (·.code = .sourceOnly) = [] := by
    split
    · rfl
    · rw [List.filter_map]
      cases r.warning? <;> rfl
  have hunlisted : (r.unlisted.map (r.unlistedFinding settings)).filter (·.code = .sourceOnly) =
      r.unlisted.map (r.unlistedFinding settings) := by
    rw [List.filter_map]
    exact congrArg _ (List.filter_eq_self.mpr fun _ _ ↦ rfl)
  rw [findings]
  split
  · rfl
  · rw [List.filter_append, List.filter_append, hunavailable, hunlisted, hdynamic, List.nil_append,
      List.append_nil]

end Reconciliation

namespace Reconciler

theorem dot_not_mem_of_mem_unlisted {r : Reconciler} {owner name : String} {o : NeededObject}
    (h : o ∈ (r.reconcile owner name).unlisted) : '.' ∉ o.object.name.toList := by
  rw [unlisted_reconcile] at h
  obtain ⟨o, ho, rfl⟩ := List.mem_map.mp h
  have hnamed := List.mem_of_mem_filter ho
  cases hsource : r.sourceOf? owner name with
  | none =>
    rw [named_reconcile_of_no_source hsource] at hnamed
    cases hnamed
  | some source =>
    rw [named_reconcile_of_source hsource] at hnamed
    rcases List.mem_append.mp hnamed with htable | hpackage
    · obtain ⟨table, hmem, rfl⟩ := List.mem_map.mp htable
      exact (Source.isReference_of_mem_allTables hmem).dot_not_mem owner
    · obtain ⟨package, hmem, rfl⟩ := List.mem_map.mp hpackage
      exact Source.dot_not_mem_of_mem_packageCalls hmem

/-- **Reporting once.** What only the source text of an object names is reported once, as an object
and as a finding that can be told from the others in any case, exactly if the catalog lists every
name that stands in the text both alone and under the owner of the object. -/
theorem reportsOnce_iff (r : Reconciler) (owner name : String) :
    (((r.reconcile owner name).unlisted.Pairwise fun o o' ↦ ¬o.agreesWith o' = true) ↔
        r.ListsRepeats owner name) ∧
      ∀ settings : Settings,
        (((r.reconcile owner name).findings settings).filter (·.code = .sourceOnly)).Pairwise
            (fun f f' ↦ Text.asciiFolded f.message ≠ Text.asciiFolded f'.message) ↔
          settings.allowlist.skips (r.reconcile owner name).fullName = true ∨
            r.ListsRepeats owner name := by
  refine ⟨pairwise_unlisted_iff r owner name, fun settings ↦ ?_⟩
  rw [Reconciliation.filter_sourceOnly_findings]
  by_cases hskips : settings.allowlist.skips (r.reconcile owner name).fullName = true
  · rw [if_pos hskips]
    exact iff_of_true .nil (Or.inl hskips)
  · rw [if_neg hskips, List.pairwise_map, or_iff_right hskips, ← pairwise_unlisted_iff]
    refine List.Pairwise.iff_of_mem fun {o o'} ho ho' ↦ not_congr ?_
    exact Reconciliation.asciiFolded_message_unlistedFinding_inj (dot_not_mem_of_mem_unlisted ho)
      (dot_not_mem_of_mem_unlisted ho')

/-- A source text that names one table alone and under the owner of the text. -/
def copyText : Dictionary String :=
  ⟨[("HR.P", "INSERT INTO emp SELECT * FROM hr.emp")], List.pairwise_singleton _ _⟩

/-- The table is reported twice if no catalog lists it. -/
theorem unlisted_copyText :
    ((Reconciler.mk (.ofDependencies []) copyText).reconcile "HR" "P").unlisted.map (·.object) =
        [⟨"hr", "emp", .table⟩, ⟨"HR", "emp", .table⟩] ∧
      ¬(((Reconciler.mk (.ofDependencies []) copyText).reconcile "HR" "P").unlisted.Pairwise
        fun o o' ↦ ¬o.agreesWith o' = true) := by
  decide +kernel

end Reconciler

end Lineage
