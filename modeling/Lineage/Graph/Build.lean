import Lineage.Graph.Basic
import Lineage.Schema.Basic
import Lineage.Source.Analysis
import Lineage.Text.CharClass

/-!
# Making dependency graphs

A graph is made from a list of dependencies, whose ends are its objects, or from a schema. In a
schema a table depends on the parents of its foreign keys, a trigger on its table and the body of a
package on the package, all of them firmly; a procedure or function refers to the tables and
packages that its source text names. A table that is named without an owner has that of the text,
and so has every package.
-/

namespace Lineage.DependencyGraph

/-- The graph of a list of dependencies. Its objects are their ends, each once. -/
def ofDependencies (ds : List Dependency) : DependencyGraph :=
  let ends := ds.flatMap fun d => [d.source, d.target]
  reindex ⟨(distinctBy ObjectRef.identity ends).map CatalogObject.ofRef, ds⟩

/-- An object with the source text that is known of it. -/
def withSource? (ref : ObjectRef) (source : Option String) : CatalogObject :=
  { CatalogObject.ofRef ref with sourceText := source }

/-- A source text unless it is blank. -/
def nonBlank (source : Option String) : Option String := source.filter (!Text.isBlankText ·)

/-- The dependencies of a table and of its triggers. -/
def tableDependencies (t : Table) : List Dependency :=
  let table : ObjectRef := ⟨t.owner, t.name, .table⟩
  let parents := (t.foreignKeys.filter (!·.parentTable.isEmpty)).map fun k =>
    ⟨table, ⟨k.parentOwner.getD t.owner, k.parentTable, .table⟩, .hard⟩
  parents ++ t.triggers.map fun trigger =>
    ⟨⟨trigger.owner.getD t.owner, trigger.name, .trigger⟩, table, .hard⟩

/-- The dependencies that the source text of an object implies. -/
def sourceDependencies (ref : ObjectRef) (source : String) : List Dependency :=
  let tables := (Source.tableReferences source).all.map fun table =>
    let (owner, name) := Text.splitQualified table ref.owner
    ⟨ref, ⟨owner, name, .table⟩, .ref⟩
  tables ++ (Source.packageCalls source).map fun package =>
    ⟨ref, ⟨ref.owner, package, .package⟩, .ref⟩

/-- The object of a procedure or function and what its source text implies. -/
def programUnit (ref : ObjectRef) (sql : Option String) : CatalogObject × List Dependency :=
  let source := nonBlank sql
  (withSource? ref source, (source.map (sourceDependencies ref)).getD [])

/-- The objects of a package, with its body if there is one, and the dependency between them. -/
def packageParts (p : Package) : List CatalogObject × List Dependency :=
  let package : ObjectRef := ⟨p.owner, p.name, .package⟩
  let whole := withSource? package p.definition
  match nonBlank p.body with
  | some body =>
    let bodyRef : ObjectRef := ⟨p.owner, p.name, .packageBody⟩
    ([whole, withSource? bodyRef (some body)], [⟨bodyRef, package, .hard⟩])
  | none => ([whole], [])

/-- The graph of a schema. -/
def ofSchema (s : Schema) : DependencyGraph :=
  let procedures := s.procedures.map fun p => programUnit ⟨p.owner, p.name, .procedure⟩ p.sql
  let functions := s.functions.map fun f => programUnit ⟨f.owner, f.name, .function⟩ f.sql
  let packages := s.packages.map packageParts
  reindex {
    objects :=
      s.tables.map (fun t => .ofRef ⟨t.owner, t.name, .table⟩) ++
        s.views.map (fun v => withSource? ⟨v.owner, v.name, .view⟩ v.sql) ++
        procedures.map (·.1) ++ functions.map (·.1) ++ packages.flatMap (·.1) ++
        s.sequences.map (fun q => .ofRef ⟨q.owner, q.name, .sequence⟩)
    dependencies :=
      s.tables.flatMap tableDependencies ++ procedures.flatMap (·.2) ++ functions.flatMap (·.2) ++
        packages.flatMap (·.2) }

end Lineage.DependencyGraph
