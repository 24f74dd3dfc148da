import Lineage.Catalog.Expansion
import Lineage.Catalog.Summary
import Lineage.Catalog.Users
import Lineage.Command.Arguments
import Lineage.Command.Session
import Lineage.Command.Text.Catalog
import Lineage.Command.Text.Graph
import Lineage.Command.Text.Report
import Lineage.Command.Text.Source
import Lineage.Command.Text.Tables
import Lineage.Finding.Structure
import Lineage.Graph.Build
import Lineage.Graph.Cycle
import Lineage.Reconciliation.Comparison
import Lineage.Reconciliation.Findings

/-!
# Running commands

What each command prints and writes, and its exit status. A command that makes a report ends with
status 1 when the report has errors; a command that fails ends with status 1 too, and a command line
that is refused with status 2.
-/

namespace Lineage

/-- The graph of a snapshot: that of its dependencies, merged with that of its schema. -/
def Snapshot.graph (s : Snapshot) : DependencyGraph :=
  (DependencyGraph.ofDependencies s.dependencies).merge (.ofSchema s.schema)

/-- The findings that the isolated tables of a schema give rise to. A name stands for the first
table of that name, ignoring ASCII case. -/
def Schema.isolatedFindings (settings : Settings) (s : Schema) : List Finding :=
  (TableNetwork.ofSchema s).isolatedNames.flatMap fun table =>
    let found := (s.tableIndex? table).bind (s.tables[·]?)
    isolatedTableFindings settings ((found.map (·.owner)).getD "") [table]

namespace Context

/-- The comparison of an object, with the findings that it gives rise to. -/
def examine (c : Context) (r : Reconciler) (owner name : String) :
    Reconciliation × List Finding :=
  let result := r.reconcile owner name
  (result, result.findings c.settings)

/-- A report of findings about `count` objects. -/
def report (c : Context) (kind : ReportKind) (now : String) (findings : List Finding)
    (count : Nat) : Report :=
  (((Report.new kind now).addAll findings).withOwner c.owner).withObjectsAnalyzed count

/-- The report of the comparison of objects. -/
def comparisonReport (c : Context) (now : String) (targets : List String)
    (compared : List (Reconciliation × List Finding)) : Report :=
  (c.report .reconciliation now (compared.flatMap (·.2)) targets.length).withMetadata <|
    .obj [("command", .str "compare"), ("objects", Json.strs targets)]

/-- The report on the isolated tables of a schema. -/
def isolatedReport (c : Context) (now : String) (s : Schema) : Report :=
  c.report .isolatedTables now (s.isolatedFindings c.settings) (TableNetwork.ofSchema s).size

end Context

/-- Comparisons of objects and the report on them as JSON. -/
def Report.comparisonToJson (r : Report) (compared : List (Reconciliation × List Finding)) : Json :=
  .canonical <| .obj [("results", .arr (compared.map (·.1.toJson))), ("report", r.toJson)]

namespace Session

variable {m : Type → Type} [Monad m] (env : Environment m) (c : Context) (s : Snapshot)

/-! ## Questions to the catalog -/

/-- Prints the footprint of an object. -/
def footprint (object : String) : Session m Nat := do
  let (owner, name) ← qualified c object
  let f := (Catalog.ofDependencies s.dependencies).footprint owner name
  printEither c f.toJson f.printed
  return 0

/-- Prints the dependency tree of an object. -/
def tree (object : String) : Session m Nat := do
  let (owner, name) ← qualified c object
  let t := (Catalog.ofDependencies s.dependencies).dependencyTree owner name
  if c.options.json then printJson t.toJson
  else
    print t.render
    progress c ("  " ++ toString t.size ++ " nodes, depth " ++ toString t.depth ++ "\n")
  return 0

/-- Prints the program units that use a table. -/
def users (table : String) : Session m Nat := do
  let (owner, name) ← qualified c table
  let found := (Catalog.ofDependencies s.dependencies).users owner name
  printEither c (Json.strs found)
    (Layout.items ("Procedures using " ++ owner ++ "." ++ name ++ ":") found)
  return 0

/-- Prints the summary of an object. -/
def summary (object : String) : Session m Nat := do
  let (owner, name) ← qualified c object
  print ((Catalog.ofDependencies s.dependencies).footprint owner name).summary
  return 0

/-! ## Reports -/

/-- Prints a report. The exit status is that of the report. -/
def finish (r : Report) (value : Json) : Session m Nat := do
  printEither c value r.printed
  return r.exitCode

/-- Saves a report if a file is given, and prints it. -/
def conclude (r : Report) (output : Option String) (value : Json) : Session m Nat := do
  saveReport? env r output
  finish c r value

/-- What is told about the findings of one comparison. -/
def verdict (findings : List Finding) : String :=
  let errors := Finding.countOf .error findings
  let warnings := Finding.countOf .warn findings
  if 0 < errors then "    ✗ " ++ toString errors ++ " errors\n"
  else if 0 < warnings then "    " ++ toString warnings ++ " warnings\n"
  else "    ✓ OK\n"

/-- Compares one object. -/
def compareOne (r : Reconciler) (target : String) : Session m (Reconciliation × List Finding) := do
  let (owner, name) ← qualified c target
  progress c ("  Comparing " ++ owner ++ "." ++ name ++ "...\n")
  let (result, findings) := c.examine r owner name
  if c.options.json then pure () else print (result.comparison ++ "\n")
  progress c (verdict findings)
  return (result, findings)

/-- The objects that are to be compared. -/
def targets (objects : List String) (all : Bool) : Session m (List String) :=
  if all then pure s.programUnits
  else if objects.isEmpty then throw .noTargets
  else pure objects

/-- Compares objects and reports the findings. -/
def compare (objects : List String) (all : Bool) (output : Option String) : Session m Nat := do
  let targets ← targets s objects all
  let compared ← targets.mapM (compareOne c (Reconciler.ofSnapshot s))
  let report := c.comparisonReport (← env.now) targets compared
  conclude env c report output (report.comparisonToJson compared)

/-- Reports the cycles of the graph. -/
def cycles (output : Option String) : Session m Nat := do
  let g := s.graph
  let report := c.report .cycles (← env.now) (cycleFindings c.settings g.cycles) g.objects.length
  conclude env c report output report.toJson

/-! ## Source texts -/

/-- Prints what the source text in a file refers to. -/
def analyze (file : String) : Session m Nat := do
  let source ← ofExcept (.sourceUnreadable file) (← env.files.read file)
  printEither c (Source.analysisToJson file source) (Source.printedAnalysis file source)
  return 0

/-- Prints what a package offers. -/
def package (reference : String) : Session m Nat := do
  let (owner, name) ← qualified c reference
  let found ← ofOption (.packageMissing owner name) (s.schema.package? owner name)
  printEither c (Source.packageToJson found) (Source.printedPackage found)
  return 0

/-! ## Graphs and tables -/

/-- Prints an object of the graph with its neighbours, or the counts of the graph. A reference
without a dot is to any owner if none is assumed. -/
def graph (object kind : Option String) : Session m Nat := do
  let g := s.graph
  match object with
  | none => printEither c g.countsToJson g.printedCounts
  | some reference =>
    let (owner, name) :=
      if reference.toList.contains '.' then
        let (owner, name) := Text.splitQualified reference ""
        (some owner, name)
      else (c.owner, reference)
    let found ← ofOption (.objectMissing reference)
      (g.find? name owner (kind.map ObjectKind.ofCatalogText))
    printEither c (g.objectToJson found) (g.printedObject found)
  return 0

/-- Reports the isolated tables and prints their names. -/
def isolated (n : TableNetwork) (output : Option String) : Session m Unit := do
  match output with
  | some path => saveReport env (c.isolatedReport (← env.now) s.schema) path
  | none => pure ()
  printEither c (Json.strs n.isolatedNames) (Layout.items "Isolated tables:" n.isolatedNames)

/-- Answers a question about tables. -/
def tables (question : TablesCommand) : Session m Nat := do
  let n := TableNetwork.ofSchema s.schema
  match question with
  | .linked => printEither c (Json.strs n.linkedNames) (Layout.items "Linked tables:" n.linkedNames)
  | .isolated output => isolated env c s n output
  | .clusters =>
    let clusters := n.clusters
    printEither c (.arr (clusters.map TableCluster.toJson)) (TableCluster.printedAll clusters)
  | .relations table =>
    let found ← ofExcept .blankArgument (n.relations? table)
    let relations ← ofOption (.tableMissing table) found
    printEither c relations.toJson relations.printed
  | .path start stop =>
    match ← ofExcept .blankArgument (n.path? start stop) with
    | some path => printEither c (Json.strs path) (" -> ".intercalate path ++ "\n")
    | none => printEither c .null ("No path between " ++ start ++ " and " ++ stop ++ "\n")
  | .related table steps =>
    let found ← ofExcept .blankArgument (n.related table steps)
    printEither c (Json.strs found) <|
      Layout.items ("Tables within " ++ toString steps ++ " hop(s) of " ++ table ++ ":") found
  | .statistics => printEither c n.statistics.toJson n.statistics.printed
  return 0

/-! ## Settings -/

/-- The settings that a user starts with. -/
def initialSettings : Settings := { Settings.default with snapshot := some snapshotFile }

/-- Writes a file of settings. -/
def initSettings (force : Bool) : Session m Nat := do
  let path := c.options.config.getD settingsFile
  if !force && (← env.files.isThere path) then throw (.settingsExist path)
  ofExcept .settingsUnwritten (← env.files.write path initialSettings.write)
  print ("Config written to: " ++ path ++ "\n")
  return 0

/-- Runs a command. -/
def runCommand (options : CommonOptions) (command : Command) : Session m Nat := do
  let c ← readContext env options
  match command with
  | .footprint object => footprint c (← readSnapshot env c) object
  | .tree object => tree c (← readSnapshot env c) object
  | .users table => users c (← readSnapshot env c) table
  | .summary object => summary c (← readSnapshot env c) object
  | .compare objects all output => compare env c (← readSnapshot env c) objects all output
  | .analyze file => analyze env c file
  | .package name => package c (← readSnapshot env c) name
  | .cycles output => cycles env c (← readSnapshot env c) output
  | .graph object kind => graph c (← readSnapshot env c) object kind
  | .tables question => tables env c (← readSnapshot env c) question
  | .initSettings force => initSettings env c force

end Session

/-- What a command line comes to. -/
structure Outcome where
  transcript : Transcript
  exitCode : Nat
deriving DecidableEq

namespace CommandLine

/-- The version of the program. -/
def versionText : String := "deplens 0.1.0\n"

/-- The help on the program. -/
def helpText : String :=
  "deplens - Database object dependency discovery\n\n" ++
    "Usage: deplens [OPTIONS] <COMMAND>\n\nCommands:\n" ++
    String.join (topLevel.commands.map fun name => "  " ++ name ++ "\n") ++
    "\nOptions:\n" ++
    String.join (topLevel.options.map fun option => "  --" ++ option.long ++ "\n")

/-- The outcome of a session. -/
def outcomeOf : Except CommandError Nat × Transcript → Outcome
  | (.ok code, t) => ⟨t, code⟩
  | (.error e, t) => ⟨{ t with notes := t.notes ++ "Error: " ++ e.message ++ "\n" }, 1⟩

/-- Runs a command line. -/
def run {m : Type → Type} [Monad m] (env : Environment m) (arguments : List String) :
    m Outcome :=
  match request arguments with
  | .error e => pure ⟨⟨"", "error: " ++ e.message ++ "\n"⟩, 2⟩
  | .ok .help => pure ⟨⟨helpText, ""⟩, 0⟩
  | .ok .version => pure ⟨⟨versionText, ""⟩, 0⟩
  | .ok (.run options command) => do
    return outcomeOf (← ((Session.runCommand env options command).run).run ⟨"", ""⟩)

end CommandLine

end Lineage
