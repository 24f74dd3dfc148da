import Lineage.Json.Record
import Lineage.Text.CharClass
import Lineage.Text.Uppercase

/-!
# Kinds of objects and strengths of dependencies

Every object of a database has a kind. A kind has a name of its own (`PackageBody`) and the
spelling that database catalogs use (`PACKAGE BODY`). Data is read strictly, by either spelling
and nothing else; what a user types is read leniently, in any case, and an unknown kind counts as a
table.
-/

namespace Lineage

/-- What an object of a database is. -/
inductive ObjectKind where
  | table
  | view
  | procedure
  | function
  | package
  | packageBody
  | trigger
  | sequence
  | synonym
  | index
  | constraint
  | type
  | materializedView
deriving DecidableEq

namespace ObjectKind

/-- Every kind. -/
def all : List ObjectKind :=
  [.table, .view, .procedure, .function, .package, .packageBody, .trigger, .sequence, .synonym,
    .index, .constraint, .type, .materializedView]

/-- The name of a kind. -/
def text : ObjectKind → String
  | .table => "Table"
  | .view => "View"
  | .procedure => "Procedure"
  | .function => "Function"
  | .package => "Package"
  | .packageBody => "PackageBody"
  | .trigger => "Trigger"
  | .sequence => "Sequence"
  | .synonym => "Synonym"
  | .index => "Index"
  | .constraint => "Constraint"
  | .type => "Type"
  | .materializedView => "MaterializedView"

/-- The spelling of a kind in a database catalog. -/
def catalogText : ObjectKind → String
  | .table => "TABLE"
  | .view => "VIEW"
  | .procedure => "PROCEDURE"
  | .function => "FUNCTION"
  | .package => "PACKAGE"
  | .packageBody => "PACKAGE BODY"
  | .trigger => "TRIGGER"
  | .sequence => "SEQUENCE"
  | .synonym => "SYNONYM"
  | .index => "INDEX"
  | .constraint => "CONSTRAINT"
  | .type => "TYPE"
  | .materializedView => "MATERIALIZED VIEW"

/-- The kind with a given name or catalog spelling. -/
def ofText? (s : String) : Option ObjectKind :=
  all.find? fun kind => kind.text == s || kind.catalogText == s

/-- The kind with a catalog spelling, in any case and between blanks; a table if there is none. -/
def ofCatalogText (s : String) : ObjectKind :=
  (all.find? (·.catalogText == Text.upcase (Text.trim s))).getD .table

/-- Whether objects of the kind hold code that is called: procedures, functions and the two halves
of packages. -/
def isProgramUnit : ObjectKind → Bool
  | .procedure | .function | .package | .packageBody => true
  | _ => false

/-- A kind as JSON. -/
def toJson (kind : ObjectKind) : Json := .str kind.text

/-- A kind read from JSON. -/
def ofJson? : Json → Option ObjectKind := Json.variant? ofText?

instance : Inhabited ObjectKind := ⟨.table⟩

end ObjectKind

/-- How firmly an object depends on another: `hard` when the catalog enforces it, `ref` when it is
a mere reference. -/
inductive Strength where
  | hard
  | ref
deriving DecidableEq

namespace Strength

/-- The name of a strength. -/
def text : Strength → String
  | .hard => "HARD"
  | .ref => "REF"

/-- The strength with a given name. -/
def ofText? : String → Option Strength
  | "HARD" => some .hard
  | "REF" => some .ref
  | _ => none

/-- A strength as JSON. -/
def toJson (strength : Strength) : Json := .str strength.text

/-- A strength read from JSON. -/
def ofJson? : Json → Option Strength := Json.variant? ofText?

instance : Inhabited Strength := ⟨.hard⟩

end Strength

end Lineage
