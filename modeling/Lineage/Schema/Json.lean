import Lineage.Json.Record
import Lineage.Schema.Basic

/-!
# Schemas in JSON

Each type of object has a writer `toJson` and a reader `ofJson?`. Writers write every member;
readers need the names and take the empty value for what is absent.
-/

namespace Lineage

open Json (strs strOrNull text? bool? nat? list? record?)
open Json.Record (nullable)

namespace Column

/-- A column as JSON. -/
def toJson (c : Column) : Json :=
  .obj [("name", .str c.name), ("data_type", .str c.dataType), ("nullable", .bool c.nullable)]

/-- A column read from JSON; it may be null unless the data says otherwise. -/
def ofJson? (value : Json) : Option Column := do
  let r ← record? ["name", "data_type", "nullable"] value
  return {
    name := ← r.required "name" text?
    dataType := ← r.defaulted "data_type" "" text?
    nullable := ← r.defaulted "nullable" true bool? }

end Column

namespace ForeignKey

/-- A foreign key as JSON. -/
def toJson (k : ForeignKey) : Json :=
  .obj [
    ("name", .str k.name),
    ("columns", strs k.columns),
    ("refers_to_schema", strOrNull k.parentOwner),
    ("refers_to_table", .str k.parentTable),
    ("refers_to_constraint", strOrNull k.parentConstraint),
    ("referenced_columns", strs k.parentColumns)]

/-- A foreign key read from JSON. -/
def ofJson? (value : Json) : Option ForeignKey := do
  let r ← record? ["name", "columns", "refers_to_schema", "refers_to_table",
    "refers_to_constraint", "referenced_columns"] value
  return {
    name := ← r.required "name" text?
    columns := ← r.defaulted "columns" [] (list? text?)
    parentOwner := ← r.defaulted "refers_to_schema" none (nullable text?)
    parentTable := ← r.required "refers_to_table" text?
    parentConstraint := ← r.defaulted "refers_to_constraint" none (nullable text?)
    parentColumns := ← r.defaulted "referenced_columns" [] (list? text?) }

end ForeignKey

namespace Trigger

/-- A trigger as JSON. -/
def toJson (t : Trigger) : Json :=
  .obj [("name", .str t.name), ("schema_owner", strOrNull t.owner), ("body", strOrNull t.body)]

/-- A trigger read from JSON. -/
def ofJson? (value : Json) : Option Trigger := do
  let r ← record? ["name", "schema_owner", "body"] value
  return {
    name := ← r.required "name" text?
    owner := ← r.defaulted "schema_owner" none (nullable text?)
    body := ← r.defaulted "body" none (nullable text?) }

end Trigger

namespace Table

/-- A table as JSON. -/
def toJson (t : Table) : Json :=
  .obj [
    ("schema_owner", .str t.owner),
    ("name", .str t.name),
    ("columns", .arr (t.columns.map Column.toJson)),
    ("primary_key", strs t.primaryKey),
    ("foreign_keys", .arr (t.foreignKeys.map ForeignKey.toJson)),
    ("triggers", .arr (t.triggers.map Trigger.toJson))]

/-- A table read from JSON. -/
def ofJson? (value : Json) : Option Table := do
  let r ← record? ["schema_owner", "name", "columns", "primary_key", "foreign_keys", "triggers"]
    value
  return {
    owner := ← r.required "schema_owner" text?
    name := ← r.required "name" text?
    columns := ← r.defaulted "columns" [] (list? Column.ofJson?)
    primaryKey := ← r.defaulted "primary_key" [] (list? text?)
    foreignKeys := ← r.defaulted "foreign_keys" [] (list? ForeignKey.ofJson?)
    triggers := ← r.defaulted "triggers" [] (list? Trigger.ofJson?) }

end Table

namespace View

/-- A view as JSON. -/
def toJson (v : View) : Json :=
  .obj [("schema_owner", .str v.owner), ("name", .str v.name), ("sql", strOrNull v.sql)]

/-- A view read from JSON. -/
def ofJson? (value : Json) : Option View := do
  let r ← record? ["schema_owner", "name", "sql"] value
  return {
    owner := ← r.required "schema_owner" text?
    name := ← r.required "name" text?
    sql := ← r.defaulted "sql" none (nullable text?) }

end View

namespace Argument

/-- An argument as JSON. -/
def toJson (a : Argument) : Json :=
  .obj [
    ("name", .str a.name),
    ("data_type", .str a.dataType),
    ("ordinal", .nat a.ordinal),
    ("is_in", .bool a.isIn),
    ("is_out", .bool a.isOut)]

/-- An argument read from JSON. -/
def ofJson? (value : Json) : Option Argument := do
  let r ← record? ["name", "data_type", "ordinal", "is_in", "is_out"] value
  return {
    name := ← r.required "name" text?
    dataType := ← r.required "data_type" text?
    ordinal := ← r.required "ordinal" nat?
    isIn := ← r.required "is_in" bool?
    isOut := ← r.required "is_out" bool? }

end Argument

namespace Procedure

/-- A procedure as JSON. -/
def toJson (p : Procedure) : Json :=
  .obj [
    ("schema_owner", .str p.owner),
    ("name", .str p.name),
    ("sql", strOrNull p.sql),
    ("package", strOrNull p.package),
    ("arguments", .arr (p.arguments.map Argument.toJson))]

/-- A procedure read from JSON. -/
def ofJson? (value : Json) : Option Procedure := do
  let r ← record? ["schema_owner", "name", "sql", "package", "arguments"] value
  return {
    owner := ← r.required "schema_owner" text?
    name := ← r.required "name" text?
    sql := ← r.defaulted "sql" none (nullable text?)
    package := ← r.defaulted "package" none (nullable text?)
    arguments := ← r.defaulted "arguments" [] (list? Argument.ofJson?) }

end Procedure

namespace Function

/-- A function as JSON. -/
def toJson (f : Function) : Json :=
  .obj [
    ("schema_owner", .str f.owner),
    ("name", .str f.name),
    ("sql", strOrNull f.sql),
    ("package", strOrNull f.package),
    ("arguments", .arr (f.arguments.map Argument.toJson)),
    ("return_type", strOrNull f.returnType)]

/-- A function read from JSON. -/
def ofJson? (value : Json) : Option Function := do
  let r ← record? ["schema_owner", "name", "sql", "package", "arguments", "return_type"] value
  return {
    owner := ← r.required "schema_owner" text?
    name := ← r.required "name" text?
    sql := ← r.defaulted "sql" none (nullable text?)
    package := ← r.defaulted "package" none (nullable text?)
    arguments := ← r.defaulted "arguments" [] (list? Argument.ofJson?)
    returnType := ← r.defaulted "return_type" none (nullable text?) }

end Function

namespace Package

/-- A package as JSON. -/
def toJson (p : Package) : Json :=
  .obj [
    ("schema_owner", .str p.owner),
    ("name", .str p.name),
    ("definition", strOrNull p.definition),
    ("body", strOrNull p.body)]

/-- A package read from JSON. -/
def ofJson? (value : Json) : Option Package := do
  let r ← record? ["schema_owner", "name", "definition", "body"] value
  return {
    owner := ← r.required "schema_owner" text?
    name := ← r.required "name" text?
    definition := ← r.defaulted "definition" none (nullable text?)
    body := ← r.defaulted "body" none (nullable text?) }

end Package

namespace Sequence

/-- A sequence as JSON. -/
def toJson (s : Sequence) : Json := .obj [("schema_owner", .str s.owner), ("name", .str s.name)]

/-- A sequence read from JSON. -/
def ofJson? (value : Json) : Option Sequence := do
  let r ← record? ["schema_owner", "name"] value
  return ⟨← r.required "schema_owner" text?, ← r.required "name" text?⟩

end Sequence

namespace Schema

/-- A schema as JSON. -/
def toJson (s : Schema) : Json :=
  .obj [
    ("tables", .arr (s.tables.map Table.toJson)),
    ("views", .arr (s.views.map View.toJson)),
    ("procedures", .arr (s.procedures.map Procedure.toJson)),
    ("functions", .arr (s.functions.map Function.toJson)),
    ("packages", .arr (s.packages.map Package.toJson)),
    ("sequences", .arr (s.sequences.map Sequence.toJson))]

/-- A schema read from JSON. -/
def ofJson? (value : Json) : Option Schema := do
  let r ← record? ["tables", "views", "procedures", "functions", "packages", "sequences"] value
  return {
    tables := ← r.defaulted "tables" [] (list? Table.ofJson?)
    views := ← r.defaulted "views" [] (list? View.ofJson?)
    procedures := ← r.defaulted "procedures" [] (list? Procedure.ofJson?)
    functions := ← r.defaulted "functions" [] (list? Function.ofJson?)
    packages := ← r.defaulted "packages" [] (list? Package.ofJson?)
    sequences := ← r.defaulted "sequences" [] (list? Sequence.ofJson?) }

end Schema

end Lineage
