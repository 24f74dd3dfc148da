import Lineage.Object.Key

/-!
# Dependencies

A dependency is an edge from the object that needs another to the object that is needed. Catalogs
list them one by one; a source text and a schema imply further ones.
-/

namespace Lineage

/-- One object needing another. -/
structure Dependency where
  source : ObjectRef
  target : ObjectRef
  strength : Strength
deriving DecidableEq

namespace Dependency

/-- The two ends of a dependency as text. -/
def text (d : Dependency) : String := d.source.text ++ " -> " ++ d.target.text

/-- A dependency as JSON. -/
def toJson (d : Dependency) : Json :=
  .obj [
    ("owner_name", .str d.source.owner),
    ("object_name", .str d.source.name),
    ("object_type", d.source.kind.toJson),
    ("referenced_owner", .str d.target.owner),
    ("referenced_name", .str d.target.name),
    ("referenced_type", d.target.kind.toJson),
    ("dependency_type", d.strength.toJson)]

/-- The members of a dependency in JSON. -/
def memberNames : List String :=
  ["owner_name", "object_name", "object_type", "referenced_owner", "referenced_name",
    "referenced_type", "dependency_type"]

/-- A dependency read from JSON; without a strength it is hard. -/
def ofJson? (value : Json) : Option Dependency := do
  let r ← Json.record? memberNames value
  let source : ObjectRef := {
    owner := ← r.required "owner_name" Json.text?
    name := ← r.required "object_name" Json.text?
    kind := ← r.required "object_type" ObjectKind.ofJson? }
  let target : ObjectRef := {
    owner := ← r.required "referenced_owner" Json.text?
    name := ← r.required "referenced_name" Json.text?
    kind := ← r.required "referenced_type" ObjectKind.ofJson? }
  return ⟨source, target, ← r.defaulted "dependency_type" .hard Strength.ofJson?⟩

/-- A list of dependencies as JSON. -/
def listToJson (ds : List Dependency) : Json := .arr (ds.map toJson)

/-- A list of dependencies read from JSON. -/
def listOfJson? : Json → Option (List Dependency) := Json.list? ofJson?

end Dependency

end Lineage
