import Lineage.Catalog.Footprint
import Lineage.Command.Layout

/-!
# Printed footprints

The footprint of an object as it is printed.
-/

namespace Lineage.Footprint

open Layout (line rule header items)

/-- A view and the tables behind it. -/
def printedView (u : ViewUse) : String :=
  line ("  - " ++ u.fullName) ++ String.join (u.tables.map fun table => line ("      -> " ++ table))

/-- A footprint as it is printed. -/
def printed (f : Footprint) : String :=
  header ("Catalog Dependencies: " ++ f.owner ++ "." ++ f.name) ++
    (if f.isEmpty then line "No catalog dependencies recorded"
    else
      items "Direct tables:" (f.tables.map fun u => u.fullName ++ " [" ++ u.strength.text ++ "]") ++
        line "Views:" ++
        (if f.views.isEmpty then line "  (none)" else String.join (f.views.map printedView)) ++
        items "Tables through views:" (f.indirectTables.map (·.text)) ++
        items "Procedures:" f.procedures ++
        items "Functions:" f.functions ++
        items "Packages:" f.packages) ++
    rule

end Lineage.Footprint
