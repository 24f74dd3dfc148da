import Lineage.Finding.Report
import Lineage.Proofs.Lists
import Lineage.Reconciliation.Findings
import Mathlib.Data.Finset.Card

/-!
# Summaries that follow the findings

The summary of a report is never worked out from its findings; it is brought up to date with each
finding that is added. What it says is nevertheless what could be counted in the list of findings
(`Report.IsTallied`): the findings of each severity, and the objects that they name, where names
that differ in ASCII case only are one object. The report without findings is tallied and a further
finding keeps it so, hence so is every report that is made by adding findings.

A finding is counted with the objects if it is the first to name its object. That is found out by
going through the findings before it, and it is what makes `distinctBy` keep the name
(`length_distinctBy_concat`).
-/

namespace Lineage

variable {α β : Type} [DecidableEq β]

theorem length_distinctBy_concat (f : α → β) (as : List α) (a : α) :
    (distinctBy f (as ++ [a])).length =
      (distinctBy f as).length + if f a ∈ as.map f then 0 else 1 := by
  have hone : distinctBy f [a] = [a] := by rw [distinctBy_cons, distinctBy_nil, List.filter_nil]
  rw [distinctBy_append, List.length_append, hone]
  by_cases hmem : f a ∈ as.map f
  · rw [List.filter_cons_of_neg (by simpa using hmem), if_pos hmem, List.filter_nil,
      List.length_nil]
  · rw [List.filter_cons_of_pos (by simpa using hmem), if_neg hmem, List.filter_nil,
      List.length_singleton]

theorem length_distinctBy (f : α → β) (as : List α) :
    (distinctBy f as).length = (as.map f).toFinset.card := by
  have hsame : ((distinctBy f as).map f).toFinset = (as.map f).toFinset := by
    ext b
    rw [List.mem_toFinset, List.mem_toFinset, mem_map_distinctBy]
  rw [← hsame, List.toFinset_card_of_nodup (nodup_map_distinctBy f as), List.length_map]

namespace Report

variable {r : Report} {f : Finding} {findings : List Finding}

theorem findings_addAll (r : Report) (findings : List Finding) :
    (r.addAll findings).findings = r.findings ++ findings := by
  induction findings generalizing r with
  | nil => exact (List.append_nil _).symm
  | cons f findings ih =>
    have hadd : (r.add f).findings = r.findings ++ [f] := rfl
    have hrest : r.addAll (f :: findings) = (r.add f).addAll findings := rfl
    rw [hrest, ih, hadd, List.append_assoc, List.singleton_append]

/-- The names of objects in findings, one for each spelling up to ASCII case. -/
def objectNames (findings : List Finding) : List String :=
  distinctBy Text.asciiFolded (findings.filterMap (·.object))

/-- Whether the counts of a summary are those of the findings. -/
structure IsTallied (r : Report) : Prop where
  errors : r.summary.errors = Finding.countOf .error r.findings
  warnings : r.summary.warnings = Finding.countOf .warn r.findings
  infos : r.summary.infos = Finding.countOf .info r.findings
  objects : r.summary.objectsWithFindings = (objectNames r.findings).length

/-- A finding names a new object if the name is none of those before, up to ASCII case. -/
theorem namesNewObject_iff {name : String} (hobject : f.object = some name) :
    r.namesNewObject f = true ↔
      Text.asciiFolded name ∉ (r.findings.filterMap (·.object)).map Text.asciiFolded := by
  rw [namesNewObject, hobject, Option.any_some, List.isEmpty_iff, findingsAbout,
    List.filter_eq_nil_iff]
  simp only [Finding.isAbout, Option.any_eq_true, Text.eqIgnoringAsciiCase_iff, List.mem_map,
    List.mem_filterMap, not_exists, not_and]
  constructor
  · rintro h other ⟨g, hg, hother⟩
    exact h g hg other hother
  · intro h g hg other hother
    exact h other ⟨g, hg, hother⟩

theorem length_objectNames_concat (r : Report) (f : Finding) :
    (objectNames (r.findings ++ [f])).length =
      (objectNames r.findings).length + if r.namesNewObject f then 1 else 0 := by
  rw [objectNames, List.filterMap_append]
  cases hobject : f.object with
  | none => simp [namesNewObject, objectNames, hobject]
  | some name =>
    have hlast : List.filterMap (·.object) [f] = [name] := by
      rw [List.filterMap_cons_some hobject, List.filterMap_nil]
    rw [hlast, length_distinctBy_concat, objectNames]
    by_cases hnew : r.namesNewObject f = true
    · rw [if_neg ((namesNewObject_iff hobject).mp hnew), if_pos hnew]
    · rw [if_pos (Decidable.not_not.mp (mt (namesNewObject_iff hobject).mpr hnew)), if_neg hnew]

namespace IsTallied

theorem add (h : r.IsTallied) (f : Finding) : (r.add f).IsTallied := by
  have hcount : ∀ severity, Finding.countOf severity (r.findings ++ [f]) =
      Finding.countOf severity r.findings + if f.severity = severity then 1 else 0 := by
    intro severity
    rw [Finding.countOf, List.countP_append, List.countP_singleton, Finding.countOf]
    simp only [decide_eq_true_iff]
  have hobjects : (r.add f).summary.objectsWithFindings =
      r.summary.objectsWithFindings + if r.namesNewObject f then 1 else 0 := by
    cases hseverity : f.severity <;> simp only [Report.add, ReportSummary.countSeverity, hseverity]
  have hfindings : (r.add f).findings = r.findings ++ [f] := rfl
  refine ⟨?_, ?_, ?_, ?_⟩
  · rw [hfindings, hcount, ← h.errors]
    cases hseverity : f.severity <;> simp [Report.add, ReportSummary.countSeverity, hseverity]
  · rw [hfindings, hcount, ← h.warnings]
    cases hseverity : f.severity <;> simp [Report.add, ReportSummary.countSeverity, hseverity]
  · rw [hfindings, hcount, ← h.infos]
    cases hseverity : f.severity <;> simp [Report.add, ReportSummary.countSeverity, hseverity]
  · rw [hfindings, length_objectNames_concat, hobjects, h.objects]

theorem addAll (h : r.IsTallied) (findings : List Finding) : (r.addAll findings).IsTallied := by
  induction findings generalizing r with
  | nil => exact h
  | cons f findings ih => exact ih (h.add f)

theorem total_eq (h : r.IsTallied) : r.summary.total = r.findings.length := by
  rw [ReportSummary.total, h.errors, h.warnings, h.infos]
  simp only [Finding.countOf]
  induction r.findings with
  | nil => rfl
  | cons f findings ih =>
    rw [List.length_cons, ← ih]
    cases hseverity : f.severity <;> simp [hseverity] <;> omega

/-- The exit status is one if some finding is an error, and zero otherwise. -/
theorem exitCode_eq (h : r.IsTallied) :
    r.exitCode = if ∃ f ∈ r.findings, f.severity = .error then 1 else 0 := by
  rw [exitCode, hasErrors, h.errors, Finding.countOf]
  simp only [decide_eq_true_iff, List.countP_pos_iff]

end IsTallied

theorem isTallied_new (kind : ReportKind) (now : String) : (new kind now).IsTallied :=
  ⟨rfl, rfl, rfl, rfl⟩

end Report

end Lineage
