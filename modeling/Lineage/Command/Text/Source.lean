import Lineage.Command.Layout
import Lineage.Reconciliation.Basic
import Lineage.Source.Specification

/-!
# Printed source texts

What a source text refers to and what a package offers, as they are printed.
-/

namespace Lineage.Source

open Layout (line rule header items)

/-- What the source text in a file refers to, as it is printed. -/
def printedAnalysis (file source : String) : String :=
  let a := analyze source
  header ("Source Analysis: " ++ file) ++
    items "Read tables:" a.tables.reads ++
    items "Insert tables:" a.tables.inserts ++
    items "Update tables:" a.tables.updates ++
    items "Delete tables:" a.tables.deletes ++
    items "Merge tables:" a.tables.merges ++
    items "Package calls:" a.packageCalls ++
    line ("Contains dynamic SQL: " ++ if a.hasDynamicSql then "Yes" else "No") ++
    items "Procedure calls:" (procedureCalls source) ++
    items "Function calls:" (functionCalls source) ++
    (if a.hasDynamicSql then "\n" ++ line Reconciliation.dynamicSqlWarning else "") ++
    rule

/-- What the source text in a file refers to, as JSON. -/
def analysisToJson (file source : String) : Json :=
  .canonical <| .obj [
    ("file", .str file),
    ("analysis", (analyze source).toJson),
    ("procedure_calls", Json.strs (procedureCalls source)),
    ("function_calls", Json.strs (functionCalls source))]

/-- A procedure as it is declared. -/
def declaredProcedure (p : Procedure) : String :=
  p.name ++ "(" ++ formatArguments p.arguments ++ ")"

/-- A function as it is declared. -/
def declaredFunction (f : Function) : String :=
  f.name ++ "(" ++ formatArguments f.arguments ++ ") RETURN " ++ f.returnType.getD "?"

/-- What a package offers, as it is printed. -/
def printedPackage (p : Package) : String :=
  header ("Package: " ++ p.owner ++ "." ++ p.name) ++
    items "Procedures:" ((procedures p).map declaredProcedure) ++
    items "Functions:" ((functions p).map declaredFunction) ++
    items "Variables:" (variableNames p) ++
    items "Types:" (typeNames p) ++
    rule

/-- What a package offers, as JSON. -/
def packageToJson (p : Package) : Json :=
  .canonical <| .obj [
    ("package", .str (p.owner ++ "." ++ p.name)),
    ("procedures", .arr ((procedures p).map Procedure.toJson)),
    ("functions", .arr ((functions p).map Function.toJson)),
    ("variables", Json.strs (variableNames p)),
    ("types", Json.strs (typeNames p))]

end Lineage.Source
