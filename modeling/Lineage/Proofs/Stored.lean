import Lineage.Graph.Basic
import Lineage.Proofs.Finding.Stored
import Lineage.Proofs.Object.Stored
import Lineage.Proofs.Schema
import Lineage.Snapshot

/-!
# Stored data is read back

Snapshots, graphs and reports are kept as JSON texts. Each is put together of parts that are read
back, and the texts can be told apart because none of the parts holds any number but an integer. The
bounds on these integers are those of the numbers that are read: 64 bits for ordinals and counts, 32
for versions.

For a report there is one more condition. Its metadata is a value of any kind, and the reader gives
up on values that are nested too deep. A reader without that limit would read every report back; the
reader that there is does so exactly within the limit.
-/

namespace Lineage

open Json (Stores record?_obj_bind)
open Json.Record (required defaulted)

theorem Sources.stores (sources : Dictionary String) : Stores ofJson? (toJson sources) sources := by
  have hentries : Stores (Json.members? Json.text?)
      (.obj (sources.entries.map fun e ↦ (e.1, .str e.2))) sources.entries :=
    Stores.members fun e _ ↦ ⟨.str e.2, rfl⟩
  refine ⟨hentries.integral, ?_⟩
  rw [ofJson?, toJson, hentries.decoded, Option.map_some, Dictionary.ofList_entries]

namespace Snapshot

theorem stores {s : Snapshot} (h : s.schema.HasWordOrdinals) : Stores ofJson? s.toJson s where
  integral := by
    simp [toJson, (Dependency.stores_list _).integral, h.stores.integral,
      (Sources.stores _).integral]
  decoded := by
    rw [ofJson?, toJson]
    refine record?_obj_bind (by simp) fun r hfind ↦ ?_
    simp [defaulted, hfind, List.lookup_cons, (Dependency.stores_list _).decoded, h.stores.decoded,
      (Sources.stores _).decoded]

theorem read?_write {s : Snapshot} (h : s.schema.HasWordOrdinals) : read? s.write = some s :=
  (stores h).read_writeTo Json.Layout.isBlank_indented

end Snapshot

namespace DependencyGraph

/-- Whether no object of a graph has times. -/
def IsTimeless (g : DependencyGraph) : Prop :=
  ∀ o ∈ g.objects, o.created = none ∧ o.lastDdl = none

theorem IsTimeless.stores {g : DependencyGraph} (h : g.IsTimeless) : Stores ofJson? g.toJson g := by
  have hobjects := Stores.list fun o ho ↦ CatalogObject.stores (h o ho).1 (h o ho).2
  constructor
  · simp [toJson, hobjects.integral, (Dependency.stores_list _).integral]
  · rw [ofJson?, toJson]
    refine record?_obj_bind (by simp) fun r hfind ↦ ?_
    simp [required, hfind, List.lookup_cons, hobjects.decoded, (Dependency.stores_list _).decoded]

end DependencyGraph

namespace Report

variable {r : Report}

/-- With a reader that gives metadata back, every report is read back. -/
theorem parse_write_bind_ofJsonWith? (h : r.FitsWords) (hplain : r.HasPlainMetadata)
    {metadata? : Json → Option Json}
    (hmetadata : ∀ value, value.IsIntegral → value.canonical = value →
      metadata? value = some value) :
    (Json.parse r.write).bind (ofJsonWith? metadata?) = some r := by
  rw [write, (isIntegral_toJson h hplain.integral).parse_pretty, Option.bind_some,
    ofJsonWith?_toJson_eq_some_iff h hplain.ne_null]
  exact fun value hvalue ↦
    hmetadata value (hplain.integral value hvalue) (hplain.canonical value hvalue)

/-- A report is read back exactly if its metadata is not nested too deep. -/
theorem read?_write_iff (h : r.FitsWords) (hplain : r.HasPlainMetadata) :
    read? r.write = some r ↔ ∀ value ∈ r.metadata, value.depth ≤ maxMetadataDepth := by
  rw [read?, write, (isIntegral_toJson h hplain.integral).parse_pretty, Option.bind_some,
    ofJson?_eq, ofJsonWith?_toJson_eq_some_iff h hplain.ne_null]
  exact forall₂_congr fun value hvalue ↦
    metadataOfJson?_eq_some_iff (hplain.integral value hvalue) (hplain.canonical value hvalue)

end Report

/-- **Stored data is read back.** A snapshot is read back from its text, and so is a graph whose
objects have no times, in either layout. A report whose metadata is none, or is not `null` and holds
no numbers but integers, is read back by any reader that gives such metadata back, and by the one
that there is if and only if the metadata is nested no deeper than that goes. -/
theorem stored_data_is_read_back :
    (∀ s : Snapshot, s.schema.HasWordOrdinals → Snapshot.read? s.write = some s) ∧
    (∀ g : DependencyGraph, g.IsTimeless →
      (Json.parse g.toJson.compact).bind DependencyGraph.ofJson? = some g ∧
        (Json.parse g.toJson.pretty).bind DependencyGraph.ofJson? = some g) ∧
    ∀ r : Report, r.FitsWords → r.HasPlainMetadata →
      (∀ metadata? : Json → Option Json,
        (∀ value, value.IsIntegral → value.canonical = value → metadata? value = some value) →
          (Json.parse r.write).bind (Report.ofJsonWith? metadata?) = some r) ∧
      (Report.read? r.write = some r ↔
        ∀ value ∈ r.metadata, value.depth ≤ Report.maxMetadataDepth) := by
  refine ⟨fun s hs ↦ s.read?_write hs, fun g hg ↦ ⟨?_, ?_⟩, fun r hr hplain ↦ ⟨?_, ?_⟩⟩
  · exact hg.stores.read_writeTo Json.Layout.isBlank_compact
  · exact hg.stores.read_writeTo Json.Layout.isBlank_indented
  · exact fun metadata? ↦ r.parse_write_bind_ofJsonWith? hr hplain
  · exact r.read?_write_iff hr hplain

/-- A snapshot with a procedure, its text, and what it needs. -/
def payroll : Snapshot where
  dependencies := [⟨⟨"HR", "PAY", .procedure⟩, ⟨"HR", "EMP", .table⟩, .ref⟩]
  schema :=
    { Schema.empty with
      procedures := [{ Procedure.ofNames "HR" "PAY" with
        arguments := [⟨"P_ID", "NUMBER", 1, true, false⟩] }] }
  sources := .ofList [("HR.PAY", "BEGIN\n\tUPDATE emp SET sal = \"SAL\" * 2;\nEND;")]

/-- A report with metadata. -/
def noCycles : Report :=
  { Report.new .cycles "2026-01-01T00:00:00+00:00" with
    metadata := some (.obj [("command", .str "cycles"), ("objects", .arr [.nat 7, .null])]) }

theorem fitsWords_noCycles : noCycles.FitsWords where
  major := by decide
  minor := by decide
  summary := ⟨by decide, by decide, by decide, by decide, by decide, nofun⟩

theorem hasPlainMetadata_noCycles : noCycles.HasPlainMetadata where
  ne_null := by rintro _ ⟨⟩; exact nofun
  integral := by
    rintro _ ⟨⟩
    simp [Json.isIntegral_nat (n := 7) (by decide)]
  canonical := by rintro _ ⟨⟩; rfl

/-- A snapshot, a graph with an object of which little is known, and a report with metadata. -/
theorem payroll_is_read_back :
    let g : DependencyGraph :=
      ⟨[(CatalogObject.ofRef ⟨"HR", "PAY", .procedure⟩).withStatus "VALID" none none],
        payroll.dependencies⟩
    Snapshot.read? payroll.write = some payroll ∧
      (Json.parse g.toJson.compact).bind DependencyGraph.ofJson? = some g ∧
      Report.read? noCycles.write = some noCycles := by
  intro g
  obtain ⟨hsnapshot, hgraph, hreport⟩ := stored_data_is_read_back
  have htimeless : g.IsTimeless := List.forall_mem_singleton.mpr ⟨rfl, rfl⟩
  have hshallow : ∀ value ∈ noCycles.metadata, value.depth ≤ Report.maxMetadataDepth := by
    rintro _ ⟨⟩
    decide
  exact ⟨hsnapshot payroll ⟨by decide, by decide⟩, (hgraph g htimeless).1,
    (hreport noCycles fitsWords_noCycles hasPlainMetadata_noCycles).2.mpr hshallow⟩

end Lineage
