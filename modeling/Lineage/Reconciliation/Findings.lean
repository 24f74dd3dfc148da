import Lineage.Reconciliation.Basic
import Lineage.Settings.Basic

/-!
# Findings from a reconciliation

What a reconciliation gives rise to: a missing source text, each object that only the source text
names, and statements built at run time. An object that the settings skip gives rise to nothing.
-/

namespace Lineage

/-- The number of findings of a severity. -/
def Finding.countOf (severity : Severity) (findings : List Finding) : Nat :=
  findings.countP (·.severity = severity)

namespace Reconciliation

variable (settings : Settings) (r : Reconciliation)

/-- A finding about the object of a reconciliation. -/
def finding (code : FindingCode) (message : String) : Finding :=
  (Finding.ofMessage code (settings.severityOf code) message).withObject r.fullName

/-- The finding that there is no source text. -/
def unavailableFinding : Finding :=
  r.finding settings .sourceUnavailable <|
    "No source text available for " ++ r.fullName ++ "; only catalog dependencies were checked"

/-- The finding of an object that only the source text names. -/
def unlistedFinding (o : NeededObject) : Finding :=
  let message := o.fullName ++ " (" ++ o.object.kind.text ++
    ") is referenced in source but not recorded in the catalog"
  ((r.finding settings .sourceOnly message).withComparison "recorded in catalog"
    "source only").withRelated [o.fullName]

/-- The findings of a reconciliation. -/
def findings : List Finding :=
  if settings.allowlist.skips r.fullName then []
  else
    (if r.hasSource then [] else [r.unavailableFinding settings]) ++
      r.unlisted.map (r.unlistedFinding settings) ++
      if settings.allowlist.allowsDynamicSql r.fullName then []
      else r.warning?.toList.map (r.finding settings .dynamicSql)

end Reconciliation

end Lineage
