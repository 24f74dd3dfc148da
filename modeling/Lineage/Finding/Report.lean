import Lineage.Dictionary
import Lineage.Finding.Basic

/-!
# Reports

A report holds the findings of one analysis and a summary of them. The summary is brought up to
date with every finding that is added, so it can be read without going through the findings.
-/

namespace Lineage

/-- The version of the report format. -/
structure ReportVersion where
  major : Nat
  minor : Nat
deriving DecidableEq

namespace ReportVersion

/-- The version that reports are written in. -/
def current : ReportVersion := ⟨2, 0⟩

/-- A version as text. -/
def text (v : ReportVersion) : String := toString v.major ++ "." ++ toString v.minor

end ReportVersion

/-- Which analysis a report comes from. -/
inductive ReportKind where
  | reconciliation
  | cycles
  | isolatedTables
deriving DecidableEq

namespace ReportKind

/-- The name of a kind of report. -/
def text : ReportKind → String
  | .reconciliation => "reconciliation"
  | .cycles => "cycles"
  | .isolatedTables => "isolated_tables"

/-- The kind of report with a given name. -/
def ofText? : String → Option ReportKind
  | "reconciliation" => some .reconciliation
  | "cycles" => some .cycles
  | "isolated_tables" => some .isolatedTables
  | _ => none

/-- The heading of a report. -/
def title : ReportKind → String
  | .reconciliation => "Dependency Reconciliation Report"
  | .cycles => "Circular Dependency Report"
  | .isolatedTables => "Isolated Table Report"

/-- A kind of report read from JSON. -/
def ofJson? : Json → Option ReportKind := Json.variant? ofText?

end ReportKind

/-- Counts of what a report holds. -/
structure ReportSummary where
  objectsAnalyzed : Nat
  objectsWithFindings : Nat
  errors : Nat
  warnings : Nat
  infos : Nat
  byCode : Dictionary Nat
deriving DecidableEq

namespace ReportSummary

/-- The summary of a report without findings. -/
def empty : ReportSummary := ⟨0, 0, 0, 0, 0, .empty⟩

/-- The number of findings. -/
def total (s : ReportSummary) : Nat := s.errors + s.warnings + s.infos

/-- The summary with one more finding of a severity. -/
def countSeverity (s : ReportSummary) : Severity → ReportSummary
  | .error => { s with errors := s.errors + 1 }
  | .warn => { s with warnings := s.warnings + 1 }
  | .info => { s with infos := s.infos + 1 }

/-- A summary as JSON. -/
def toJson (s : ReportSummary) : Json :=
  .obj [
    ("objects_analyzed", .nat s.objectsAnalyzed),
    ("objects_with_findings", .nat s.objectsWithFindings),
    ("errors", .nat s.errors),
    ("warnings", .nat s.warnings),
    ("info", .nat s.infos),
    ("by_code", .obj (s.byCode.entries.map fun e => (e.1, .nat e.2)))]

/-- A summary read from JSON. -/
def ofJson? (value : Json) : Option ReportSummary := do
  let r ← Json.record? ["objects_analyzed", "objects_with_findings", "errors", "warnings", "info",
    "by_code"] value
  return {
    objectsAnalyzed := ← r.required "objects_analyzed" Json.nat?
    objectsWithFindings := ← r.required "objects_with_findings" Json.nat?
    errors := ← r.required "errors" Json.nat?
    warnings := ← r.required "warnings" Json.nat?
    infos := ← r.required "info" Json.nat?
    byCode := Dictionary.ofList (← r.required "by_code" (Json.members? Json.nat?)) }

end ReportSummary

/-- The findings of one analysis. -/
structure Report where
  version : ReportVersion
  kind : ReportKind
  /-- When the report was made. -/
  generatedAt : String
  /-- The owner that the analysis assumed for bare names. -/
  owner : Option String
  summary : ReportSummary
  findings : List Finding
  /-- What else is to be known about the analysis, a canonical value. -/
  metadata : Option Json

namespace Report

/-- A report without findings. -/
def new (kind : ReportKind) (generatedAt : String) : Report :=
  ⟨.current, kind, generatedAt, none, .empty, [], none⟩

/-- The findings about an object, named ignoring ASCII case. -/
def findingsAbout (r : Report) (object : String) : List Finding :=
  r.findings.filter (·.isAbout object)

/-- The number of findings with a code. -/
def count (r : Report) (code : FindingCode) : Nat := (r.summary.byCode.find? code.text).getD 0

/-- Whether a finding names an object that no finding of the report names yet. -/
def namesNewObject (r : Report) (f : Finding) : Bool :=
  f.object.any fun object => (r.findingsAbout object).isEmpty

/-- The report with one more finding. -/
def add (r : Report) (f : Finding) : Report :=
  let counted := r.summary.countSeverity f.severity
  { r with
    summary := { counted with
      byCode := counted.byCode.increment f.code.text
      objectsWithFindings := counted.objectsWithFindings + if r.namesNewObject f then 1 else 0 }
    findings := r.findings ++ [f] }

/-- The report with more findings. -/
def addAll (r : Report) (findings : List Finding) : Report := findings.foldl add r

/-- The report of an analysis that looked at `count` objects. -/
def withObjectsAnalyzed (r : Report) (count : Nat) : Report :=
  { r with summary := { r.summary with objectsAnalyzed := count } }

/-- The report for an owner, who is put in upper case. -/
def withOwner (r : Report) (owner : Option String) : Report :=
  { r with owner := owner.map Text.upcase }

/-- The report with metadata. -/
def withMetadata (r : Report) (metadata : Json) : Report :=
  { r with metadata := some metadata.canonical }

/-- Whether some finding is an error. -/
def hasErrors (r : Report) : Bool := 0 < r.summary.errors

/-- The exit status that a report calls for: one when some finding is an error. -/
def exitCode (r : Report) : Nat := if r.hasErrors then 1 else 0

/-- A report as JSON. Without an owner or metadata that member is left out. -/
def toJson (r : Report) : Json :=
  .obj ([
    ("version", .obj [("major", .nat r.version.major), ("minor", .nat r.version.minor)]),
    ("kind", .str r.kind.text),
    ("generated_at", .str r.generatedAt)] ++
    (r.owner.map fun owner => ("owner", Json.str owner)).toList ++ [
    ("summary", r.summary.toJson),
    ("diagnostics", .arr (r.findings.map Finding.toJson))] ++
    (r.metadata.map fun value => ("metadata", value)).toList)

/-- A version read from JSON; either number has 32 bits. -/
def versionOfJson? (value : Json) : Option ReportVersion := do
  let r ← Json.record? ["major", "minor"] value
  let number := Json.natBelow? (Nat.pow 2 32)
  return ⟨← r.required "major" number, ← r.required "minor" number⟩

/-- The greatest depth of metadata that is read. -/
def maxMetadataDepth : Nat := 126

/-- Metadata read from JSON. -/
def metadataOfJson? (value : Json) : Option Json :=
  if value.isStorable && value.depth ≤ maxMetadataDepth then some value.canonical else none

/-- A report read from JSON. -/
def ofJson? (value : Json) : Option Report := do
  let r ← Json.record? ["version", "kind", "generated_at", "owner", "summary", "diagnostics",
    "metadata"] value
  return {
    version := ← r.required "version" versionOfJson?
    kind := ← r.required "kind" ReportKind.ofJson?
    generatedAt := ← r.required "generated_at" Json.text?
    owner := ← r.optional "owner" Json.text?
    summary := ← r.required "summary" ReportSummary.ofJson?
    findings := ← r.required "diagnostics" (Json.list? Finding.ofJson?)
    metadata := ← r.optional "metadata" metadataOfJson? }

/-- The text of the file that holds a report. -/
def write (r : Report) : String := r.toJson.pretty

/-- The report in the text of a file. -/
def read? (text : String) : Option Report := (Json.parse text).bind ofJson?

end Report

end Lineage
