import Lineage.Json.Record
import Lineage.Text.Name

/-!
# Findings

A finding is one remark about the database, with a code that stays the same from release to
release and a severity. Each code has a severity of its own, which settings may override.
-/

namespace Lineage

/-- How serious a finding is. -/
inductive Severity where
  | info
  | warn
  | error
deriving DecidableEq

namespace Severity

/-- The name of a severity. -/
def text : Severity → String
  | .info => "info"
  | .warn => "warn"
  | .error => "error"

/-- The severity with a given name. -/
def ofText? : String → Option Severity
  | "info" => some .info
  | "warn" => some .warn
  | "error" => some .error
  | _ => none

/-- A severity read from JSON. -/
def ofJson? : Json → Option Severity := Json.variant? ofText?

end Severity

/-- What a finding is about. -/
inductive FindingCode where
  /-- A source text refers to an object that the catalog does not list. -/
  | sourceOnly
  /-- A source text builds statements while it runs. -/
  | dynamicSql
  /-- There is no source text to look at. -/
  | sourceUnavailable
  /-- Objects depend on each other in a cycle. -/
  | circularDependency
  /-- A table has no foreign key in either direction. -/
  | tableIsolated
  /-- A general remark. -/
  | info
  /-- A general warning. -/
  | warning
deriving DecidableEq

namespace FindingCode

/-- Every code. -/
def all : List FindingCode :=
  [.sourceOnly, .dynamicSql, .sourceUnavailable, .circularDependency, .tableIsolated, .info,
    .warning]

/-- The name of a code. -/
def text : FindingCode → String
  | .sourceOnly => "DEP_SOURCE_ONLY"
  | .dynamicSql => "DEP_DYNAMIC_SQL"
  | .sourceUnavailable => "DEP_SOURCE_UNAVAILABLE"
  | .circularDependency => "GRAPH_CIRCULAR_DEPENDENCY"
  | .tableIsolated => "TABLE_ISOLATED"
  | .info => "INFO"
  | .warning => "WARNING"

/-- The code with a given name. -/
def ofText? (s : String) : Option FindingCode := all.find? (·.text == s)

/-- The severity of a code unless settings say otherwise. -/
def defaultSeverity : FindingCode → Severity
  | .sourceOnly => .warn
  | .dynamicSql => .warn
  | .sourceUnavailable => .info
  | .circularDependency => .error
  | .tableIsolated => .info
  | .info => .info
  | .warning => .warn

/-- A code read from JSON. -/
def ofJson? : Json → Option FindingCode := Json.variant? ofText?

end FindingCode

/-- A remark about an object of the database. -/
structure Finding where
  code : FindingCode
  severity : Severity
  message : String
  /-- The object that the finding is about. -/
  object : Option String
  /-- What was to be found, for a comparison. -/
  expected : Option String
  /-- What was found instead. -/
  actual : Option String
  /-- Other objects that are involved. -/
  related : List String
deriving DecidableEq

namespace Finding

/-- A finding without details. -/
def ofMessage (code : FindingCode) (severity : Severity) (message : String) : Finding :=
  ⟨code, severity, message, none, none, none, []⟩

/-- The finding about an object. -/
def withObject (f : Finding) (object : String) : Finding := { f with object := some object }

/-- The finding of one thing in place of another. -/
def withComparison (f : Finding) (expected actual : String) : Finding :=
  { f with expected := some expected, actual := some actual }

/-- The finding with other objects involved. -/
def withRelated (f : Finding) (related : List String) : Finding := { f with related }

/-- Whether the finding is about an object, named ignoring ASCII case. -/
def isAbout (f : Finding) (object : String) : Bool :=
  f.object.any (Text.eqIgnoringAsciiCase · object)

/-- A finding as JSON. -/
def toJson (f : Finding) : Json :=
  .obj [
    ("code", .str f.code.text),
    ("severity", .str f.severity.text),
    ("message", .str f.message),
    ("object", Json.strOrNull f.object),
    ("expected", Json.strOrNull f.expected),
    ("actual", Json.strOrNull f.actual),
    ("related", Json.strs f.related)]

/-- A finding read from JSON. -/
def ofJson? (value : Json) : Option Finding := do
  let r ← Json.record? ["code", "severity", "message", "object", "expected", "actual", "related"]
    value
  return {
    code := ← r.required "code" FindingCode.ofJson?
    severity := ← r.required "severity" Severity.ofJson?
    message := ← r.required "message" Json.text?
    object := ← r.optional "object" Json.text?
    expected := ← r.optional "expected" Json.text?
    actual := ← r.optional "actual" Json.text?
    related := ← r.required "related" (Json.list? Json.text?) }

end Finding

end Lineage
