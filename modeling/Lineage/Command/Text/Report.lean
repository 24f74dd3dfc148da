import Lineage.Command.Layout
import Lineage.Finding.Report

/-!
# Printed reports

The summary of a report and its findings as they are printed.
-/

namespace Lineage

open Layout (line rule header)

/-- The word that marks a finding of a severity. -/
def Severity.mark : Severity → String
  | .error => "ERROR"
  | .warn => "WARN"
  | .info => "INFO"

/-- A detail of a finding, on a line of its own if it is known. -/
def printedDetail (label : String) : Option String → String
  | some text => line ("    " ++ label ++ text)
  | none => ""

/-- A finding as it is printed. -/
def Finding.printed (f : Finding) : String :=
  line ("  [" ++ f.severity.mark ++ "] " ++ f.code.text ++ ": " ++ f.message) ++
    printedDetail "Object:   " f.object ++
    printedDetail "Expected: " f.expected ++
    printedDetail "Actual:   " f.actual

/-- The counts of a summary as they are printed. -/
def ReportSummary.printed (s : ReportSummary) : String :=
  line ("Objects analyzed:      " ++ toString s.objectsAnalyzed) ++
    line ("Objects with findings: " ++ toString s.objectsWithFindings) ++
    line "" ++
    line "Summary:" ++
    line ("  Total diagnostics: " ++ toString s.total) ++
    line ("  Errors:   " ++ toString s.errors) ++
    line ("  Warnings: " ++ toString s.warnings) ++
    line ("  Info:     " ++ toString s.infos) ++
    String.join (s.byCode.entries.map fun (code, count) =>
      line ("    " ++ code ++ ": " ++ toString count))

/-- A report as it is printed. -/
def Report.printed (r : Report) : String :=
  header r.kind.title ++
    line "" ++
    r.summary.printed ++
    line "" ++
    (if r.findings.isEmpty then line "✓ No issues found!"
    else line "Diagnostics:" ++ String.join (r.findings.map Finding.printed)) ++
    line "" ++
    rule

end Lineage
