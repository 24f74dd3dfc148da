import Lineage.Json.Reader
import Lineage.Json.Printer

/-!
# Records in JSON

A record is an object with known member names, or an array that lists the values of those members
in order. Unknown members are passed over; a known member must not be repeated; an array must not
be longer than the record. Members come in three kinds. A *required* member must be there. An
*optional* one may be `null`, and in an object it may be absent. A *defaulted* one may be absent
from either.

A variant without data is written as its name; an object whose one member has that name and the
value `null` means the same.
-/

namespace Lineage.Json

/-- The members of a record that are present. -/
structure Record where
  /-- Whether the record was written as an array. -/
  positional : Bool
  members : List (String × Json)

namespace Record

/-- The value of a member. -/
def find? (r : Record) (name : String) : Option Json := r.members.lookup name

/-- A member that has to be there. -/
def required {α : Type} (r : Record) (name : String) (decode : Json → Option α) : Option α :=
  (r.find? name).bind decode

/-- `null`, or a value. -/
def nullable {α : Type} (decode : Json → Option α) : Json → Option (Option α)
  | .null => some none
  | value => (decode value).map some

/-- A member that may be `null`, and absent from an object. -/
def optional {α : Type} (r : Record) (name : String) (decode : Json → Option α) :
    Option (Option α) :=
  match r.find? name with
  | some value => nullable decode value
  | none => if r.positional then none else some none

/-- A member that may be absent. -/
def defaulted {α : Type} (r : Record) (name : String) (default : α) (decode : Json → Option α) :
    Option α :=
  match r.find? name with
  | some value => decode value
  | none => some default

end Record

/-- Whether two members of `members` share one of the names `known`. -/
def repeats (known : List String) : List (String × Json) → Bool
  | [] => false
  | (name, _) :: members =>
    (known.contains name && members.any (·.1 == name)) || repeats known members

/-- A value as a record with the members `known`. -/
def record? (known : List String) : Json → Option Record
  | .obj members => if repeats known members then none else some ⟨false, members⟩
  | .arr items => if known.length < items.length then none else some ⟨true, known.zip items⟩
  | _ => none

/-- A value as a variant without data. -/
def variant? {α : Type} (ofName? : String → Option α) : Json → Option α
  | .str name => ofName? name
  | .obj [(name, .null)] => ofName? name
  | _ => none

/-- A value as a text. -/
def text? : Json → Option String
  | .str text => some text
  | _ => none

/-- A value as a truth value. -/
def bool? : Json → Option Bool
  | .bool value => some value
  | _ => none

/-- A value as a count below `bound`. -/
def natBelow? (bound : Nat) : Json → Option Nat
  | .int n => if 0 ≤ n ∧ n < bound then some n.toNat else none
  | _ => none

/-- A value as a count of 64 bits. -/
def nat? : Json → Option Nat := natBelow? (Nat.pow 2 64)

/-- A value as a list. -/
def list? {α : Type} (decode : Json → Option α) : Json → Option (List α)
  | .arr items => items.mapM decode
  | _ => none

/-- A value as an object, member by member. -/
def members? {α : Type} (decode : Json → Option α) : Json → Option (List (String × α))
  | .obj members => members.mapM fun (name, value) => (decode value).map (name, ·)
  | _ => none

end Lineage.Json
