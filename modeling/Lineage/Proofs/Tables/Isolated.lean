import Lineage.Command.Run
import Lineage.Proofs.Finding.Report
import Lineage.Proofs.Tables.Cluster
import Lineage.Proofs.Tables.Parent
import Lineage.Proofs.Text.Name

/-!
# Findings about isolated tables

Which tables are isolated is decided table by table, but the report on them is made from their bare
names: a name is looked up again, and the finding is about the first table of that name. So the
report is right about a table whose name no other owner has before it. Where an earlier table of
another owner has the name, the finding is about that table, linked or not, and the isolated one is
not mentioned.

What the findings are about is therefore described by `Schema.reportedName`, and the question
whether a report names the isolated tables comes down to comparing it with their full names. For
names without a dot this is a question about the owner of the first table of a name only.
-/

namespace Lineage

namespace Schema

variable {s : Schema} {i : Nat} {t : Table} {f : Finding} {name : String} {settings : Settings}

/-! ## Isolated tables -/

/-- Whether the table of an index has no foreign key in either direction: none of its own names a
parent, and none of any table refers to it. -/
def StandsAlone (s : Schema) (i : Nat) : Prop :=
  (∀ key ∈ s.keysAt i, key.parentTable.isEmpty = true) ∧ ∀ j, ¬s.RefersTo j i

/-- Whether a table is one of a schema, and has no foreign key in either direction. -/
def IsIsolated (s : Schema) (t : Table) : Prop := ∃ i, s.tables[i]? = some t ∧ s.StandsAlone i

theorem standsAlone_iff : s.StandsAlone i ↔ (TableNetwork.ofSchema s).isLinked i = false := by
  have hschema : (TableNetwork.ofSchema s).schema = s := rfl
  rw [← Bool.not_eq_true, TableNetwork.isLinked_iff, not_or, StandsAlone, hschema]
  simp only [not_exists, not_and, Bool.not_eq_false]

theorem IsIsolated.mem_tables (h : s.IsIsolated t) : t ∈ s.tables :=
  List.mem_of_getElem? h.choose_spec.1

theorem isIsolated_iff : s.IsIsolated t ↔ ∃ i ∈ (TableNetwork.ofSchema s).indices,
    s.tables[i]? = some t ∧ (TableNetwork.ofSchema s).isLinked i = false := by
  simp only [IsIsolated, standsAlone_iff]
  refine exists_congr fun i ↦ (and_iff_right_of_imp fun h ↦ ?_).symm
  exact TableNetwork.mem_indices.mpr (List.getElem?_eq_some_iff.mp h.1).choose

instance (s : Schema) (t : Table) : Decidable (s.IsIsolated t) :=
  decidable_of_iff _ isIsolated_iff.symm

theorem mem_isolatedNames :
    name ∈ (TableNetwork.ofSchema s).isolatedNames ↔ ∃ t, s.IsIsolated t ∧ t.name = name := by
  have hname : ∀ {i : Nat} {t : Table}, s.tables[i]? = some t →
      (TableNetwork.ofSchema s).name i = t.name := by
    intro i t ht
    have hschema : (TableNetwork.ofSchema s).schema = s := rfl
    rw [TableNetwork.name, hschema, ht, Option.map_some, Option.getD_some]
  rw [TableNetwork.isolatedNames, TableNetwork.sortedNames,
    ((TableNetwork.sortByName_perm _ _).map _).mem_iff, List.mem_map]
  constructor
  · rintro ⟨i, hi, rfl⟩
    obtain ⟨hmem, hlinked⟩ := TableNetwork.mem_indicesWhere.mp hi
    have ht := List.getElem?_eq_getElem (TableNetwork.mem_indices.mp hmem)
    exact ⟨_, isIsolated_iff.mpr ⟨i, hmem, ht, (Bool.not_eq_true' _).mp hlinked⟩, (hname ht).symm⟩
  · rintro ⟨t, ht, rfl⟩
    obtain ⟨i, hmem, ht, hlinked⟩ := isIsolated_iff.mp ht
    exact ⟨i, TableNetwork.mem_indicesWhere.mpr ⟨hmem, (Bool.not_eq_true' _).mpr hlinked⟩, hname ht⟩

/-! ## What the findings are about -/

/-- The name under which an isolated table is reported: its own, with the owner of the first table
that has it. -/
def reportedName (s : Schema) (t : Table) : String :=
  Text.qualified (((s.firstNamed? t.name).map (·.owner)).getD "") t.name

theorem reportedName_eq {first : Table} (h : s.firstNamed? t.name = some first) :
    s.reportedName t = Text.qualified first.owner t.name := by
  rw [reportedName, h, Option.map_some, Option.getD_some]

theorem IsIsolated.exists_firstNamed? (h : s.IsIsolated t) :
    ∃ first, s.firstNamed? t.name = some first := by
  obtain ⟨i, ht, -⟩ := h
  refine Option.isSome_iff_exists.mp (List.find?_isSome.mpr ⟨t, List.mem_of_getElem? ht, ?_⟩)
  exact Text.eqIgnoringAsciiCase_iff.mpr rfl

theorem mem_isolatedTableFindings {owner table : String} :
    f ∈ isolatedTableFindings settings owner [table] ↔
      settings.allowlist.skips (Text.qualified owner table) = false ∧
        f = isolatedTableFinding settings (Text.qualified owner table) := by
  simp only [isolatedTableFindings, List.mem_map, List.mem_filter, List.mem_singleton,
    exists_eq_left, Bool.not_eq_true']
  constructor
  · rintro ⟨_, ⟨rfl, hskips⟩, rfl⟩
    exact ⟨hskips, rfl⟩
  · rintro ⟨hskips, rfl⟩
    exact ⟨_, ⟨rfl, hskips⟩, rfl⟩

/-- There is a finding for each isolated table, about the name under which it is reported, unless
that is skipped. -/
theorem mem_isolatedFindings :
    f ∈ s.isolatedFindings settings ↔ ∃ t, s.IsIsolated t ∧
      settings.allowlist.skips (s.reportedName t) = false ∧
        f = isolatedTableFinding settings (s.reportedName t) := by
  have hfirst : ∀ name, (s.tableIndex? name).bind (s.tables[·]?) = s.firstNamed? name :=
    fun name ↦ List.find?_eq_bind_findIdx?_getElem?.symm
  simp only [isolatedFindings, List.mem_flatMap, mem_isolatedNames, mem_isolatedTableFindings,
    hfirst]
  constructor
  · rintro ⟨_, ⟨t, ht, rfl⟩, hf⟩
    exact ⟨t, ht, hf⟩
  · rintro ⟨t, ht, hf⟩
    exact ⟨t.name, ⟨t, ht, rfl⟩, hf⟩

end Schema

/-! ## Reports -/

/-- Whether a report names the isolated tables of a schema: what it says to be isolated is the full
name of an isolated table, and it says so of each of them unless the settings skip it. -/
structure Report.NamesIsolated (r : Report) (s : Schema) (settings : Settings) : Prop where
  isolated : ∀ f ∈ r.findings, f.code = .tableIsolated →
    ∃ t, s.IsIsolated t ∧ f.object = some t.fullName
  complete : ∀ t, s.IsIsolated t → settings.allowlist.skips t.fullName = false →
    ∃ f ∈ r.findings, f.code = .tableIsolated ∧ f.object = some t.fullName

namespace Context

variable {c : Context} {now : String} {s : Schema}

theorem findings_report (c : Context) (kind : ReportKind) (now : String) (findings : List Finding)
    (count : Nat) : (c.report kind now findings count).findings = findings :=
  Report.findings_addAll (Report.new kind now) findings

theorem isolated_eq_saveReport {m : Type → Type} [Monad m] (env : Environment m) (c : Context)
    (s : Snapshot) (path : String) :
    let n := TableNetwork.ofSchema s.schema
    Session.isolated env c s n (some path) = (do
      Session.saveReport env (c.isolatedReport (← env.now) s.schema) path
      Session.printEither c (Json.strs n.isolatedNames)
        (Layout.items "Isolated tables:" n.isolatedNames)) := rfl

theorem mem_findings_isolatedReport {f : Finding} :
    f ∈ (c.isolatedReport now s).findings ↔ ∃ t, s.IsIsolated t ∧
      c.settings.allowlist.skips (s.reportedName t) = false ∧
        f = isolatedTableFinding c.settings (s.reportedName t) := by
  rw [isolatedReport, findings_report, Schema.mem_isolatedFindings]

theorem namesIsolated_iff_reportedName : (c.isolatedReport now s).NamesIsolated s c.settings ↔
    ∀ t, s.IsIsolated t →
      (c.settings.allowlist.skips t.fullName = false →
        ∃ u, s.IsIsolated u ∧ s.reportedName u = t.fullName) ∧
      (c.settings.allowlist.skips (s.reportedName t) = false →
        ∃ u, s.IsIsolated u ∧ u.fullName = s.reportedName t) := by
  constructor
  · refine fun h t ht ↦ ⟨fun hskips ↦ ?_, fun hskips ↦ ?_⟩
    · obtain ⟨f, hf, -, hfull⟩ := h.complete t ht hskips
      obtain ⟨u, hu, -, rfl⟩ := mem_findings_isolatedReport.mp hf
      exact ⟨u, hu, Option.some_inj.mp hfull⟩
    · obtain ⟨u, hu, hfull⟩ :=
        h.isolated _ (mem_findings_isolatedReport.mpr ⟨t, ht, hskips, rfl⟩) rfl
      exact ⟨u, hu, (Option.some_inj.mp hfull).symm⟩
  · refine fun h ↦ ⟨fun f hf _ ↦ ?_, fun t ht hskips ↦ ?_⟩
    · obtain ⟨t, ht, hskips, rfl⟩ := mem_findings_isolatedReport.mp hf
      obtain ⟨u, hu, hfull⟩ := (h t ht).2 hskips
      exact ⟨u, hu, congrArg some hfull.symm⟩
    · obtain ⟨u, hu, hfull⟩ := (h t ht).1 hskips
      exact ⟨_, mem_findings_isolatedReport.mpr ⟨u, hu, hfull ▸ hskips, rfl⟩, rfl,
        congrArg some hfull⟩

/-- The full name of an isolated table is reported if the first table of its name has its owner, and
else only for a table of another name. -/
theorem exists_reportedName_eq_iff {t first : Table} (ht : s.IsIsolated t)
    (hfirst : s.firstNamed? t.name = some first) :
    (∃ u, s.IsIsolated u ∧ s.reportedName u = t.fullName) ↔ first.owner = t.owner ∨
      ∃ u, s.IsIsolated u ∧ u.name ≠ t.name ∧ s.reportedName u = t.fullName := by
  constructor
  · rintro ⟨u, hu, hfull⟩
    -- tables of one name are reported with the owner of the same first table
    by_cases hname : u.name = t.name
    · rw [Schema.reportedName, hname, hfirst] at hfull
      exact Or.inl (Text.qualified_left_inj.mp hfull)
    · exact Or.inr ⟨u, hu, hname, hfull⟩
  · rintro (howner | ⟨u, hu, -, hfull⟩)
    · exact ⟨t, ht, by rw [Schema.reportedName_eq hfirst, howner, Table.fullName]⟩
    · exact ⟨u, hu, hfull⟩

/-- **Naming the isolated tables.** Where the isolated tables are asked for with a file, a report on
them is saved in it. For given settings that report is right exactly if two things hold of every
isolated table and the first table of its name. Either both have the same owner, or the isolated one
is skipped, or a table of another name is reported under its full name. And the name that it has
under the owner of the first one is the full name of an isolated table, or is skipped. -/
theorem namesIsolated_iff {m : Type → Type} [Monad m] (env : Environment m) (c : Context)
    (s : Snapshot) (path now : String) :
    let n := TableNetwork.ofSchema s.schema
    (Session.isolated env c s n (some path) = do
      Session.saveReport env (c.isolatedReport (← env.now) s.schema) path
      Session.printEither c (Json.strs n.isolatedNames)
        (Layout.items "Isolated tables:" n.isolatedNames)) ∧
    ((c.isolatedReport now s.schema).NamesIsolated s.schema c.settings ↔
      ∀ t, s.schema.IsIsolated t → ∀ first, s.schema.firstNamed? t.name = some first →
        (c.settings.allowlist.skips t.fullName = false → first.owner = t.owner ∨
          ∃ u, s.schema.IsIsolated u ∧ u.name ≠ t.name ∧ s.schema.reportedName u = t.fullName) ∧
        (c.settings.allowlist.skips (Text.qualified first.owner t.name) = false →
          ∃ u, s.schema.IsIsolated u ∧ u.fullName = Text.qualified first.owner t.name)) := by
  intro n
  refine ⟨isolated_eq_saveReport env c s path, ?_⟩
  rw [namesIsolated_iff_reportedName]
  refine forall₂_congr fun t ht ↦ ?_
  -- a table of the name there is, so the first one is a fixed table
  obtain ⟨first, hfirst⟩ := ht.exists_firstNamed?
  rw [exists_reportedName_eq_iff ht hfirst, Schema.reportedName_eq hfirst]
  constructor
  · rintro h first' hfirst'
    rwa [← Option.some_inj.mp (hfirst.symm.trans hfirst')]
  · intro h
    exact h first hfirst

/-- A report for which no name is skipped is right exactly if the first table of the name of every
isolated table has its owner, provided that those names have no dot. -/
theorem namesIsolated_iff_of_skips_eq_false
    (hskips : ∀ name, c.settings.allowlist.skips name = false)
    (hdot : ∀ t, s.IsIsolated t → '.' ∉ t.name.toList) :
    (c.isolatedReport now s).NamesIsolated s c.settings ↔
      ∀ t, s.IsIsolated t → (s.firstNamed? t.name).map (·.owner) = some t.owner := by
  rw [namesIsolated_iff_reportedName]
  refine ⟨fun h t ht ↦ ?_, fun h t ht ↦ ?_⟩
  · obtain ⟨first, hfirst⟩ := ht.exists_firstNamed?
    rw [hfirst, Option.map_some, Option.some_inj]
    refine ((exists_reportedName_eq_iff ht hfirst).mp ((h t ht).1 (hskips _))).resolve_right ?_
    rintro ⟨u, hu, hname, hfull⟩
    exact hname ((Text.qualified_inj (hdot u hu) (hdot t ht)).mp hfull).2
  · have hsame : s.reportedName t = t.fullName := by
      rw [Schema.reportedName, h t ht, Option.getD_some, Table.fullName]
    exact ⟨fun _ ↦ ⟨t, ht, hsame⟩, fun _ ↦ ⟨t, ht, hsame.symm⟩⟩

/-- A schema in which two owners have a table of one name, of which the first refers to another
table and the second stands alone. -/
def copiedTable : Schema :=
  { Schema.empty with
    tables := [⟨"OLD", "EMP", [], [], [.ofNames "EMP_DEPT_FK" "DEPT"], []⟩, .ofNames "OLD" "DEPT",
      .ofNames "HR" "EMP"] }

/-- The report is on the linked table of the first owner, and not on the isolated one. -/
theorem not_namesIsolated_copiedTable :
    let c : Context := ⟨⟨none, none, none, false, false⟩, .default⟩
    (c.isolatedReport "" copiedTable).findings.map (·.object) = [some "OLD.EMP"] ∧
      copiedTable.IsIsolated (.ofNames "HR" "EMP") ∧
      (∀ t, copiedTable.IsIsolated t → t.fullName ≠ "OLD.EMP") ∧
      ¬(c.isolatedReport "" copiedTable).NamesIsolated copiedTable c.settings := by
  intro c
  have hobjects : (c.isolatedReport "" copiedTable).findings.map (·.object) = [some "OLD.EMP"] := by
    decide +kernel
  have hisolated : copiedTable.IsIsolated (.ofNames "HR" "EMP") := by decide
  have hlinked : ∀ t ∈ copiedTable.tables, copiedTable.IsIsolated t → t.fullName ≠ "OLD.EMP" := by
    decide
  refine ⟨hobjects, hisolated, fun t ht ↦ hlinked t ht.mem_tables ht, fun h ↦ ?_⟩
  -- a complete report would have a finding about the isolated table, but its only one is not
  obtain ⟨f, hf, -, hobject⟩ := h.complete _ hisolated rfl
  have hmem := List.mem_map_of_mem (f := (·.object)) hf
  rw [hobjects, hobject] at hmem
  exact absurd hmem (by decide)

end Context

end Lineage
