import Lineage.Finding.Report
import Lineage.Proofs.Dictionary
import Lineage.Proofs.Json.Record

/-!
# Reports are read back

The counts of a report are read as numbers of 64 bits and those of its version as numbers of 32, so
the report has to keep within these bounds. The owner and the metadata are left out when there are
none; metadata that is `null` could not be told from none.

Metadata is any value, and it is kept in its canonical form. Reading it gives up on values that are
nested too deep. What this does to a report is all that it does (`ofJsonWith?`): with a reader that
gives metadata of any depth back, the report is read back, and with the reader that there is exactly
if its metadata is not nested too deep.
-/

namespace Lineage

open Json (Stores record?_obj_bind)
open Json.Record (required)

theorem Severity.stores (severity : Severity) : Stores ofJson? (.str severity.text) severity where
  integral := .str _
  decoded := by cases severity <;> rfl

theorem FindingCode.stores (code : FindingCode) : Stores ofJson? (.str code.text) code where
  integral := .str _
  decoded := by cases code <;> rfl

theorem Finding.stores (f : Finding) : Stores ofJson? f.toJson f where
  integral := by simp [toJson]
  decoded := by
    rw [ofJson?, toJson]
    refine record?_obj_bind (by simp) fun r hfind ↦ ?_
    simp [required, Json.Record.optional, hfind, List.lookup_cons, (FindingCode.stores _).decoded,
      (Severity.stores _).decoded]

/-- Whether the counts of a summary are numbers of 64 bits. -/
structure ReportSummary.FitsWords (s : ReportSummary) : Prop where
  objectsAnalyzed : s.objectsAnalyzed < Nat.pow 2 64
  objectsWithFindings : s.objectsWithFindings < Nat.pow 2 64
  errors : s.errors < Nat.pow 2 64
  warnings : s.warnings < Nat.pow 2 64
  infos : s.infos < Nat.pow 2 64
  byCode : ∀ e ∈ s.byCode.entries, e.2 < Nat.pow 2 64

theorem ReportSummary.FitsWords.stores {s : ReportSummary} (h : s.FitsWords) :
    Stores ofJson? s.toJson s := by
  have hanalyzed := Stores.nat h.objectsAnalyzed
  have hfindings := Stores.nat h.objectsWithFindings
  have herrors := Stores.nat h.errors
  have hwarnings := Stores.nat h.warnings
  have hinfos := Stores.nat h.infos
  have hcodes := Stores.members fun e he ↦ Stores.nat (h.byCode e he)
  constructor
  · simp [toJson, hanalyzed.integral, hfindings.integral, herrors.integral, hwarnings.integral,
      hinfos.integral, hcodes.integral]
  · rw [ofJson?, toJson]
    refine record?_obj_bind (by simp) fun r hfind ↦ ?_
    simp -implicitDefEqProofs [required, hfind, List.lookup_cons, hanalyzed.decoded,
      hfindings.decoded, herrors.decoded, hwarnings.decoded, hinfos.decoded, hcodes.decoded,
      Dictionary.ofList_entries]

theorem ReportKind.stores (kind : ReportKind) : Stores ofJson? (.str kind.text) kind where
  integral := .str _
  decoded := by cases kind <;> rfl

namespace Report

/-- Whether the counts of a report are numbers of 64 bits, and those of its version numbers of
32. -/
structure FitsWords (r : Report) : Prop where
  major : r.version.major < Nat.pow 2 32
  minor : r.version.minor < Nat.pow 2 32
  summary : r.summary.FitsWords

/-- Whether the metadata of a report can be told from none, holds no numbers but integers, and is in
the form in which it is kept. -/
structure HasPlainMetadata (r : Report) : Prop where
  ne_null : ∀ value ∈ r.metadata, value ≠ .null
  integral : ∀ value ∈ r.metadata, value.IsIntegral
  canonical : ∀ value ∈ r.metadata, value.canonical = value

/-- A report read from JSON, with any reader of metadata. -/
def ofJsonWith? (metadata? : Json → Option Json) (value : Json) : Option Report := do
  let r ← Json.record? ["version", "kind", "generated_at", "owner", "summary", "diagnostics",
    "metadata"] value
  return {
    version := ← r.required "version" versionOfJson?
    kind := ← r.required "kind" ReportKind.ofJson?
    generatedAt := ← r.required "generated_at" Json.text?
    owner := ← r.optional "owner" Json.text?
    summary := ← r.required "summary" ReportSummary.ofJson?
    findings := ← r.required "diagnostics" (Json.list? Finding.ofJson?)
    metadata := ← r.optional "metadata" metadata? }

theorem ofJson?_eq : ofJson? = ofJsonWith? metadataOfJson? := rfl

/-- A version as JSON. -/
def versionToJson (v : ReportVersion) : Json :=
  .obj [("major", .nat v.major), ("minor", .nat v.minor)]

theorem FitsWords.stores_version {r : Report} (h : r.FitsWords) :
    Stores versionOfJson? (versionToJson r.version) r.version := by
  have hbound : Nat.pow 2 32 ≤ Nat.pow 2 64 := by decide
  have hmajor := Stores.natBelow h.major hbound
  have hminor := Stores.natBelow h.minor hbound
  constructor
  · simp [versionToJson, hmajor.integral, hminor.integral]
  · rw [versionOfJson?, versionToJson]
    refine record?_obj_bind (by simp) fun r hfind ↦ ?_
    simp -implicitDefEqProofs [required, hfind, List.lookup_cons, hmajor.decoded, hminor.decoded]

/-- The members of a report in JSON. Without an owner or metadata those have no value. -/
def members (r : Report) : List (String × Option Json) := [
  ("version", some (versionToJson r.version)),
  ("kind", some (.str r.kind.text)),
  ("generated_at", some (.str r.generatedAt)),
  ("owner", r.owner.map .str),
  ("summary", some r.summary.toJson),
  ("diagnostics", some (.arr (r.findings.map Finding.toJson))),
  ("metadata", r.metadata)]

theorem toJson_eq (r : Report) : r.toJson = .obj (Json.present r.members) := by
  have howner : (r.owner.map fun owner ↦ ("owner", Json.str owner)).toList =
      ((r.owner.map .str).map ("owner", ·)).toList := by rw [Option.map_map]; rfl
  simp only [toJson, howner, Json.present, members, List.flatMap_cons, List.flatMap_nil,
    List.append_assoc, List.append_nil]
  rfl

theorem nodup_members (r : Report) : (r.members.map (·.1)).Nodup := by simp [members]

theorem isIntegral_toJson {r : Report} (h : r.FitsWords)
    (hmetadata : ∀ value ∈ r.metadata, value.IsIntegral) : r.toJson.IsIntegral := by
  have hfindings := Stores.list fun f (_ : f ∈ r.findings) ↦ f.stores
  rw [toJson_eq]
  refine Json.isIntegral_present ?_
  simp [members, h.stores_version.integral, h.summary.stores.integral, hfindings.integral]
  exact hmetadata

theorem nullable_of_ne_null {α : Type} {value : Json} (h : value ≠ .null)
    (decode : Json → Option α) : Json.Record.nullable decode value = (decode value).map some := by
  cases value <;> first | rfl | exact absurd rfl h

theorem ofJsonWith?_toJson {r : Report} (h : r.FitsWords)
    (hnull : ∀ value ∈ r.metadata, value ≠ .null) (metadata? : Json → Option Json) :
    ofJsonWith? metadata? r.toJson =
      (r.metadata.mapM metadata?).map fun metadata ↦ { r with metadata } := by
  obtain ⟨rec, hrecord, hpositional, hfind⟩ := Json.exists_record?_present
    ["version", "kind", "generated_at", "owner", "summary", "diagnostics", "metadata"]
    r.nodup_members
  have hversion : rec.required "version" versionOfJson? = some r.version := by
    simp -implicitDefEqProofs [required, hfind, members, h.stores_version.decoded]
  have hkind : rec.required "kind" ReportKind.ofJson? = some r.kind := by
    simp [required, hfind, members, List.lookup_cons, (ReportKind.stores _).decoded]
  have hgenerated : rec.required "generated_at" Json.text? = some r.generatedAt := by
    simp [required, hfind, members, List.lookup_cons]
  have hsummary : rec.required "summary" ReportSummary.ofJson? = some r.summary := by
    simp -implicitDefEqProofs [required, hfind, members, List.lookup_cons, h.summary.stores.decoded]
  have hfindings : rec.required "diagnostics" (Json.list? Finding.ofJson?) = some r.findings := by
    have hlist := (Stores.list fun f (_ : f ∈ r.findings) ↦ f.stores).decoded
    simp [required, hfind, members, List.lookup_cons, hlist]
  have howner : rec.optional "owner" Json.text? = some r.owner := by
    cases howner : r.owner <;>
      simp [Json.Record.optional, hfind, members, List.lookup_cons, howner, hpositional,
        Json.Record.nullable]
  have hmetadata : rec.optional "metadata" metadata? = r.metadata.mapM metadata? := by
    cases hvalue : r.metadata with
    | none => simp [Json.Record.optional, hfind, members, List.lookup_cons, hvalue, hpositional]
    | some value =>
      have hkept := nullable_of_ne_null (hnull value hvalue) metadata?
      simp [Json.Record.optional, hfind, members, List.lookup_cons, hvalue, hkept, Option.mapM_some]
  rw [ofJsonWith?, toJson_eq, hrecord]
  simp only [Option.bind_eq_bind, Option.bind_some, hversion, hkind, hgenerated, howner, hsummary,
    hfindings, hmetadata]
  cases r.metadata.mapM metadata? with
  | none => rfl
  | some metadata => rfl

/-- A report is read back exactly if its metadata is given back. -/
theorem ofJsonWith?_toJson_eq_some_iff {r : Report} (h : r.FitsWords)
    (hnull : ∀ value ∈ r.metadata, value ≠ .null) (metadata? : Json → Option Json) :
    ofJsonWith? metadata? r.toJson = some r ↔
      ∀ value ∈ r.metadata, metadata? value = some value := by
  have hsame : ∀ metadata, { r with metadata } = r ↔ metadata = r.metadata := by
    intro metadata
    cases r
    simp only [mk.injEq, true_and]
  rw [ofJsonWith?_toJson h hnull, Option.map_eq_some_iff]
  simp only [hsame, exists_eq_right]
  cases r.metadata with
  | none => simp
  | some value => simp [Option.mapM_some]

theorem metadataOfJson?_eq_some_iff {value : Json} (hintegral : value.IsIntegral)
    (hcanonical : value.canonical = value) :
    metadataOfJson? value = some value ↔ value.depth ≤ maxMetadataDepth := by
  rw [metadataOfJson?, hintegral.isStorable, Bool.true_and, hcanonical]
  split
  next h => exact iff_of_true rfl (of_decide_eq_true h)
  next h => exact iff_of_false (Option.some_ne_none value).symm fun hle ↦ h (decide_eq_true hle)

end Report

end Lineage
