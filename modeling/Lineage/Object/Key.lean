import Lineage.Object.Kind
import Lineage.Text.Name

/-!
# Object identity

An object is named by its owner and its own name, and two namings are the same object when their
upper cases agree. `ObjectKey` is that identity. An `ObjectRef` is a naming as it was written,
together with the kind of the object.
-/

namespace Lineage

/-- The identity of an object: owner and name in upper case. -/
structure ObjectKey where
  owner : String
  name : String
deriving DecidableEq

namespace ObjectKey

/-- The identity of the object named by an owner and a name. -/
def ofNames (owner name : String) : ObjectKey := ⟨Text.upcase owner, Text.upcase name⟩

/-- A key as text. -/
def text (key : ObjectKey) : String := key.owner ++ "." ++ key.name

/-- A key as JSON. -/
def toJson (key : ObjectKey) : Json := .obj [("owner", .str key.owner), ("name", .str key.name)]

/-- A key read from JSON, as it stands. -/
def ofJson? (value : Json) : Option ObjectKey := do
  let r ← Json.record? ["owner", "name"] value
  return ⟨← r.required "owner" Json.text?, ← r.required "name" Json.text?⟩

end ObjectKey

/-- A naming of an object, with its kind. -/
structure ObjectRef where
  owner : String
  name : String
  kind : ObjectKind
deriving DecidableEq

namespace ObjectRef

/-- The identity of the object that is named. -/
def key (r : ObjectRef) : ObjectKey := .ofNames r.owner r.name

/-- The name, qualified unless the owner is empty. -/
def fullName (r : ObjectRef) : String := Text.qualified r.owner r.name

/-- A naming as text: the qualified name and the kind. -/
def text (r : ObjectRef) : String := r.owner ++ "." ++ r.name ++ " (" ++ r.kind.text ++ ")"

/-- What tells one object from another: the key and the kind, as two objects of different kinds may
share a key. -/
def identity (r : ObjectRef) : ObjectKey × ObjectKind := (r.key, r.kind)

/-- Whether two namings are of the same object and kind. -/
def isSame (a b : ObjectRef) : Bool := a.identity == b.identity

end ObjectRef

end Lineage
