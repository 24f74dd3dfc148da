import Lineage.Text.Name

/-!
# Schemas

The objects of one or more database schemas as plain data, the way a catalog describes them. The
order of every list is the order in which the catalog gave it, and look-ups take the first match.
-/

namespace Lineage

/-- A column of a table. -/
structure Column where
  name : String
  dataType : String
  nullable : Bool
deriving DecidableEq

/-- A foreign key. The table it refers to is the parent; the table that declares it, the child. -/
structure ForeignKey where
  name : String
  columns : List String
  parentOwner : Option String
  parentTable : String
  parentConstraint : Option String
  parentColumns : List String
deriving DecidableEq

/-- A trigger of a table; without an owner of its own it has that of the table. -/
structure Trigger where
  name : String
  owner : Option String
  body : Option String
deriving DecidableEq

/-- A table. -/
structure Table where
  owner : String
  name : String
  columns : List Column
  primaryKey : List String
  foreignKeys : List ForeignKey
  triggers : List Trigger
deriving DecidableEq

/-- A view. -/
structure View where
  owner : String
  name : String
  sql : Option String
deriving DecidableEq

/-- An argument of a procedure or function. Ordinals count from one. -/
structure Argument where
  name : String
  dataType : String
  ordinal : Nat
  isIn : Bool
  isOut : Bool
deriving DecidableEq

/-- A procedure, on its own or in a package. -/
structure Procedure where
  owner : String
  name : String
  sql : Option String
  package : Option String
  arguments : List Argument
deriving DecidableEq

/-- A function, on its own or in a package. -/
structure Function where
  owner : String
  name : String
  sql : Option String
  package : Option String
  arguments : List Argument
  returnType : Option String
deriving DecidableEq

/-- A package: its specification and the text of its body. -/
structure Package where
  owner : String
  name : String
  definition : Option String
  body : Option String
deriving DecidableEq

/-- A sequence. -/
structure Sequence where
  owner : String
  name : String
deriving DecidableEq

/-- The objects of one or more schemas. -/
structure Schema where
  tables : List Table
  views : List View
  procedures : List Procedure
  functions : List Function
  packages : List Package
  sequences : List Sequence
deriving DecidableEq

/-- A foreign key of which only the name and the parent table are known. -/
def ForeignKey.ofNames (name parentTable : String) : ForeignKey :=
  ⟨name, [], none, parentTable, none, []⟩

/-- A trigger of which only the name is known. -/
def Trigger.ofName (name : String) : Trigger := ⟨name, none, none⟩

/-- A column of some type that may be null. -/
def Column.ofNames (name dataType : String) : Column := ⟨name, dataType, true⟩

/-- A table without columns. -/
def Table.ofNames (owner name : String) : Table := ⟨owner, name, [], [], [], []⟩

/-- A table's name, qualified unless the owner is empty. -/
def Table.fullName (t : Table) : String := Text.qualified t.owner t.name

/-- A procedure of which only the name is known. -/
def Procedure.ofNames (owner name : String) : Procedure := ⟨owner, name, none, none, []⟩

/-- A function of which only the name is known. -/
def Function.ofNames (owner name : String) : Function := ⟨owner, name, none, none, [], none⟩

/-- A package of which only the name is known. -/
def Package.ofNames (owner name : String) : Package := ⟨owner, name, none, none⟩

namespace Schema

/-- The schema without objects. -/
def empty : Schema := ⟨[], [], [], [], [], []⟩

instance : Inhabited Schema := ⟨empty⟩

/-- The index of the first table of a name, ignoring ASCII case. -/
def tableIndex? (s : Schema) (name : String) : Option Nat :=
  s.tables.findIdx? fun t => Text.eqIgnoringAsciiCase t.name name

/-- The index of the first table of an owner and name, ignoring ASCII case. -/
def ownedTableIndex? (s : Schema) (owner name : String) : Option Nat :=
  s.tables.findIdx? fun t =>
    Text.eqIgnoringAsciiCase t.owner owner && Text.eqIgnoringAsciiCase t.name name

/-- The index of the parent of a foreign key. A key that names an owner refers to that owner's
table, and when there is none, like a key without an owner, to the first table of the name. -/
def parentIndex? (s : Schema) (key : ForeignKey) : Option Nat :=
  if key.parentTable.isEmpty then none
  else
    (key.parentOwner.bind (s.ownedTableIndex? · key.parentTable)).or
      (s.tableIndex? key.parentTable)

/-- The first procedure of an owner and name, ignoring ASCII case. -/
def procedure? (s : Schema) (owner name : String) : Option Procedure :=
  s.procedures.find? fun p =>
    Text.eqIgnoringAsciiCase p.owner owner && Text.eqIgnoringAsciiCase p.name name

/-- The first package of an owner and name, ignoring ASCII case. -/
def package? (s : Schema) (owner name : String) : Option Package :=
  s.packages.find? fun p =>
    Text.eqIgnoringAsciiCase p.owner owner && Text.eqIgnoringAsciiCase p.name name

/-- The objects whose owner satisfies `p`. -/
def filterOwners (s : Schema) (p : String → Bool) : Schema where
  tables := s.tables.filter (p ·.owner)
  views := s.views.filter (p ·.owner)
  procedures := s.procedures.filter (p ·.owner)
  functions := s.functions.filter (p ·.owner)
  packages := s.packages.filter (p ·.owner)
  sequences := s.sequences.filter (p ·.owner)

end Schema

end Lineage
