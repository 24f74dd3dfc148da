import Lineage.Catalog.Footprint

/-!
# Summaries of footprints

A footprint as text for reading: one part for each kind of entry, with a line for each entry or
one that says that there is none.
-/

namespace Lineage.Footprint

/-- A part of a summary: a heading and the lines under it. -/
def part (heading : String) (lines : List String) : String :=
  "\n" ++ heading ++ ":\n" ++
    (if lines.isEmpty then "  (none)\n" else String.join (lines.map ("  - " ++ · ++ "\n")))

/-- The lines for a view. The tables behind it are listed under it if there are any. -/
def viewLines (u : ViewUse) : String :=
  let tables := u.tables.map ("\n      - " ++ ·)
  u.fullName ++ " (" ++ u.strength.text ++ ")" ++
    (if tables.isEmpty then "" else "\n    Underlying tables:" ++ String.join tables)

/-- The summary of a footprint. -/
def summary (f : Footprint) : String :=
  "Dependency Summary for " ++ f.owner ++ "." ++ f.name ++ "\n" ++ "".pushn '=' 50 ++ "\n" ++
    part "Direct Table Dependencies"
      (f.tables.map fun u => u.fullName ++ " (" ++ u.strength.text ++ ")") ++
    part "View Dependencies" (f.views.map viewLines) ++
    part "Indirect Table Dependencies (via views)" (f.indirectTables.map (·.text)) ++
    part "Procedure Dependencies" f.procedures ++
    part "Function Dependencies" f.functions ++
    part "Package Dependencies" f.packages

end Lineage.Footprint
