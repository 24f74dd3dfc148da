/-!
# Layout of printed results

The parts that printed results are made of. Every part ends its lines.
-/

namespace Lineage.Layout

/-- A line. -/
def line (text : String) : String := text ++ "\n"

/-- A line across the page. -/
def rule : String := line ("".pushn '=' 60)

/-- A title between two rules, after an empty line. -/
def header (title : String) : String := "\n" ++ rule ++ line title ++ rule

/-- A heading and a line for each item, or one that says that there is none. -/
def items (heading : String) (items : List String) : String :=
  line heading ++
    if items.isEmpty then line "  (none)"
    else String.join (items.map fun item => line ("  - " ++ item))

/-- A label and what is counted under it, set out in columns. -/
def column (width : Nat) (label : String) : String := label.pushn ' ' (width - label.length)

end Lineage.Layout
