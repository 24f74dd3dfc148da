import Lineage.Proofs.Dictionary
import Lineage.Proofs.Finding.Report

/-!
# Reports that are built step by step

A report is built by adding findings, one or several at a time, and by setting what it says of the
analysis: how many objects were looked at, for which owner, and metadata. Its summary is brought up
to date by the first kind of step and has to survive the second. After any steps whatever it agrees
with the findings (`Report.IsSummarized`), so whoever reads the summary reads what could have been
counted.

Six counts are kept by hand. The four of `IsTallied` are those of the severities and the objects;
here the counts by code are added, which are entries of a dictionary. That an entry is raised by one
says two things, how often the code of the entry was given and how many findings there are in all,
and the second needs the entry to be found again under its code, wherever it stands
(`Dictionary.sum_increment`).
-/

namespace Lineage

theorem FindingCode.text_inj {code code' : FindingCode} :
    code.text = code'.text ↔ code = code' := by
  cases code <;> cases code' <;> decide

namespace Report

variable {r : Report}

/-! ## Counts by code -/

/-- Whether the counts by code are those of the findings. -/
structure IsTalliedByCode (r : Report) : Prop where
  count : ∀ code, r.count code = r.findings.countP (·.code = code)
  sum : r.summary.byCode.sum = r.findings.length

namespace IsTalliedByCode

theorem new (kind : ReportKind) (now : String) : (Report.new kind now).IsTalliedByCode :=
  ⟨fun _ ↦ rfl, rfl⟩

theorem add (h : r.IsTalliedByCode) (f : Finding) : (r.add f).IsTalliedByCode := by
  have hcodes : (r.add f).summary.byCode = r.summary.byCode.increment f.code.text := by
    cases hseverity : f.severity <;> simp only [Report.add, ReportSummary.countSeverity, hseverity]
  have hfindings : (r.add f).findings = r.findings ++ [f] := rfl
  refine ⟨fun code ↦ ?_, ?_⟩
  · have hcount : r.count code = (r.summary.byCode.find? code.text).getD 0 := rfl
    rw [Report.count, hcodes, Dictionary.getD_find?_increment, ← hcount, h.count, hfindings,
      List.countP_append, List.countP_singleton]
    simp only [FindingCode.text_inj, decide_eq_true_iff, eq_comm (a := code)]
  · rw [hcodes, Dictionary.sum_increment, h.sum, hfindings, List.length_append,
      List.length_singleton]

theorem addAll (h : r.IsTalliedByCode) (findings : List Finding) :
    (r.addAll findings).IsTalliedByCode := by
  induction findings generalizing r with
  | nil => exact h
  | cons f findings ih => exact ih (h.add f)

end IsTalliedByCode

/-! ## Steps -/

/-- A step in which a report is built. -/
inductive Step where
  /-- A finding is added. -/
  | add (f : Finding)
  /-- Several findings are added. -/
  | addAll (findings : List Finding)
  /-- The number of objects that the analysis looked at is set. -/
  | objectsAnalyzed (count : Nat)
  /-- The owner that the analysis assumed is set. -/
  | owner (name : Option String)
  /-- The metadata are set. -/
  | metadata (value : Json)

namespace Step

/-- The report after a step. -/
def apply (r : Report) : Step → Report
  | .add f => r.add f
  | .addAll findings => r.addAll findings
  | .objectsAnalyzed count => r.withObjectsAnalyzed count
  | .owner name => r.withOwner name
  | .metadata value => r.withMetadata value

/-- The findings that a step adds. -/
def findings : Step → List Finding
  | .add f => [f]
  | .addAll findings => findings
  | _ => []

theorem findings_apply (r : Report) (step : Step) :
    (step.apply r).findings = r.findings ++ step.findings := by
  cases step with
  | add f => rfl
  | addAll findings => exact findings_addAll r findings
  | objectsAnalyzed | owner | metadata => exact (List.append_nil _).symm

end Step

/-- The report after some steps. -/
def build (r : Report) (steps : List Step) : Report := steps.foldl Step.apply r

theorem findings_build (r : Report) (steps : List Step) :
    (r.build steps).findings = r.findings ++ steps.flatMap Step.findings := by
  induction steps generalizing r with
  | nil => exact (List.append_nil _).symm
  | cons step steps ih =>
    have hrest : r.build (step :: steps) = (step.apply r).build steps := rfl
    rw [hrest, ih, Step.findings_apply, List.flatMap_cons, List.append_assoc]

/-! ## Summaries -/

/-- Whether all that the summary of a report says of its findings can be counted in them. Names of
objects that differ in the case of ASCII letters alone name one object. -/
structure IsSummarized (r : Report) : Prop where
  errors : r.summary.errors = r.findings.countP (·.severity = .error)
  warnings : r.summary.warnings = r.findings.countP (·.severity = .warn)
  infos : r.summary.infos = r.findings.countP (·.severity = .info)
  total : r.summary.total = r.findings.length
  sum_byCode : r.summary.byCode.sum = r.summary.total
  count : ∀ code, r.count code = r.findings.countP (·.code = code)
  objects : r.summary.objectsWithFindings =
    ((r.findings.filterMap (·.object)).map Text.asciiFolded).toFinset.card
  hasErrors_iff : r.hasErrors = true ↔ ∃ f ∈ r.findings, f.severity = .error

/-- The counts that are kept are all that a summary is made from. -/
theorem IsTallied.isSummarized (h : r.IsTallied) (hcode : r.IsTalliedByCode) : r.IsSummarized where
  errors := h.errors
  warnings := h.warnings
  infos := h.infos
  total := h.total_eq
  sum_byCode := hcode.sum.trans h.total_eq.symm
  count := hcode.count
  objects := h.objects.trans (length_distinctBy _ _)
  hasErrors_iff := by
    rw [hasErrors, h.errors, Finding.countOf, decide_eq_true_iff, List.countP_pos_iff]
    simp only [decide_eq_true_iff]

/-- A step keeps the counts right: it brings them up to date with the findings that it adds, and if
it adds none it leaves them alone. -/
theorem IsTallied.apply (h : r.IsTallied) (hcode : r.IsTalliedByCode) (step : Step) :
    (step.apply r).IsTallied ∧ (step.apply r).IsTalliedByCode := by
  cases step with
  | add f => exact ⟨h.add f, hcode.add f⟩
  | addAll findings => exact ⟨h.addAll findings, hcode.addAll findings⟩
  | objectsAnalyzed | owner | metadata =>
    exact ⟨⟨h.errors, h.warnings, h.infos, h.objects⟩, ⟨hcode.count, hcode.sum⟩⟩

theorem IsTallied.build (h : r.IsTallied) (hcode : r.IsTalliedByCode) (steps : List Step) :
    (r.build steps).IsTallied ∧ (r.build steps).IsTalliedByCode := by
  induction steps generalizing r with
  | nil => exact ⟨h, hcode⟩
  | cons step steps ih =>
    obtain ⟨hstep, hstepCode⟩ := h.apply hcode step
    exact ih hstep hstepCode

/-- **Summaries follow the findings.** A report that is built in any steps holds the findings that
the steps added, in their order, and its summary says what can be counted in them. -/
theorem build_isSummarized (kind : ReportKind) (now : String) (steps : List Step) :
    ((new kind now).build steps).findings = steps.flatMap Step.findings ∧
      ((new kind now).build steps).IsSummarized := by
  have hfindings := findings_build (new kind now) steps
  obtain ⟨htallied, hcode⟩ := (isTallied_new kind now).build (.new kind now) steps
  exact ⟨hfindings, htallied.isSummarized hcode⟩

end Report

end Lineage
