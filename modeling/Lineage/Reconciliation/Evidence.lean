import Lineage.Object.Key

/-!
# Evidence

That an object needs another may be known from the catalog or from the source text of the object. An
object that is needed is named together with the evidence for it.
-/

namespace Lineage

/-- Where it is known from that an object is needed. -/
inductive Evidence where
  | catalog
  /-- The catalog lists it for a view that is needed. -/
  | catalogThroughView
  | sourceText
  /-- The source text names it and the catalog does not list it. -/
  | sourceTextOnly
deriving DecidableEq

namespace Evidence

/-- Every kind of evidence. -/
def all : List Evidence := [.catalog, .catalogThroughView, .sourceText, .sourceTextOnly]

/-- The name of a kind of evidence in data. -/
def name : Evidence → String
  | .catalog => "Catalog"
  | .catalogThroughView => "CatalogViaView"
  | .sourceText => "SourceCode"
  | .sourceTextOnly => "SourceCodeNew"

/-- A kind of evidence as text for reading. -/
def text : Evidence → String
  | .catalog => "Catalog"
  | .catalogThroughView => "Catalog (via view)"
  | .sourceText => "SourceCode"
  | .sourceTextOnly => "SourceCode (New)"

/-- Whether evidence comes from the catalog. -/
def isCatalog : Evidence → Bool
  | .catalog | .catalogThroughView => true
  | .sourceText | .sourceTextOnly => false

/-- The kind of evidence with a given name. -/
def ofName? (s : String) : Option Evidence := all.find? (·.name == s)

/-- A kind of evidence read from JSON. -/
def ofJson? : Json → Option Evidence := Json.variant? ofName?

instance : Inhabited Evidence := ⟨.catalog⟩

end Evidence

/-- An object that is needed, with the evidence for it. -/
structure NeededObject where
  object : ObjectRef
  strength : Strength
  evidence : Evidence
deriving DecidableEq

namespace NeededObject

/-- The name of the object, qualified unless the owner is empty. -/
def fullName (o : NeededObject) : String := o.object.fullName

/-- Whether two objects have the same kind and, ignoring ASCII case, the same owner and name. The
evidence is left aside. -/
def agreesWith (a b : NeededObject) : Bool :=
  Text.eqIgnoringAsciiCase a.object.owner b.object.owner &&
    Text.eqIgnoringAsciiCase a.object.name b.object.name && a.object.kind = b.object.kind

/-- An object that is needed as JSON. -/
def toJson (o : NeededObject) : Json :=
  .obj [
    ("schema_owner", .str o.object.owner),
    ("object_name", .str o.object.name),
    ("object_type", o.object.kind.toJson),
    ("dependency_type", o.strength.toJson),
    ("source", .str o.evidence.name)]

/-- An object that is needed read from JSON. -/
def ofJson? (value : Json) : Option NeededObject := do
  let r ← Json.record? ["schema_owner", "object_name", "object_type", "dependency_type", "source"]
    value
  let object : ObjectRef := {
    owner := ← r.required "schema_owner" Json.text?
    name := ← r.required "object_name" Json.text?
    kind := ← r.required "object_type" ObjectKind.ofJson? }
  return {
    object
    strength := ← r.required "dependency_type" Strength.ofJson?
    evidence := ← r.required "source" Evidence.ofJson? }

end NeededObject

end Lineage
