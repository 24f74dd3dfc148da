import Lineage.Object.Key
import Lineage.Settings.Basic

/-!
# Findings about structure

Findings that follow from how objects hang together: cycles of dependencies, and tables without a
foreign key. An object that the settings skip gives no finding; a cycle is skipped with its first
object.
-/

namespace Lineage

/-- The finding of a cycle, as a list of keys; none for the empty list. -/
def cycleFinding? (settings : Settings) (cycle : List ObjectKey) : Option Finding :=
  let members := cycle.map (·.text)
  match members with
  | [] => none
  | first :: _ =>
    if settings.allowlist.skips first then none
    else
      let message := "Circular dependency: " ++ " -> ".intercalate members
      some <| ((Finding.ofMessage .circularDependency
        (settings.severityOf .circularDependency) message).withObject first).withRelated members

/-- The findings of cycles. -/
def cycleFindings (settings : Settings) (cycles : List (List ObjectKey)) : List Finding :=
  cycles.filterMap (cycleFinding? settings)

/-- The finding that a table stands alone. -/
def isolatedTableFinding (settings : Settings) (table : String) : Finding :=
  (Finding.ofMessage .tableIsolated (settings.severityOf .tableIsolated)
    (table ++ " takes part in no foreign-key relationship")).withObject table

/-- The findings that tables of an owner stand alone. -/
def isolatedTableFindings (settings : Settings) (owner : String) (tables : List String) :
    List Finding :=
  ((tables.map (Text.qualified owner)).filter (!settings.allowlist.skips ·)).map
    (isolatedTableFinding settings)

end Lineage
