/-!
# JSON values

The values a JSON text denotes. Objects keep their members in the order they were written, repeats
included, because readers of records and readers of maps treat repeats differently.

Numbers are split by what the rest of the library can use: an integer between the least signed and
the greatest unsigned number of 64 bits is an `int`, and every other number is a `real`, kept as
its text. The text `-0` is a `real`. A string with an unpaired surrogate escape is well formed
but denotes no text, and an object with such a name has no members that could be told; either is
kept as `unpaired` so that a reader may pass over it.
-/

namespace Lineage

/-- A JSON value. -/
inductive Json where
  | null
  | bool (value : Bool)
  | int (value : Int)
  | real (lexeme : String)
  | str (text : String)
  | unpaired
  | arr (items : List Json)
  | obj (members : List (String × Json))

namespace Json

/-- A count as a JSON number. -/
def nat (n : Nat) : Json := .int n

/-- A text, or `null` for none. -/
def strOrNull : Option String → Json
  | some text => .str text
  | none => .null

/-- A list of texts. -/
def strs (texts : List String) : Json := .arr (texts.map .str)

/-! ## Depth -/

mutual

/-- The number of containers around the innermost value. -/
def depth : Json → Nat
  | .arr items => depthItems items + 1
  | .obj members => depthMembers members + 1
  | _ => 0

/-- The greatest depth of an item. -/
def depthItems : List Json → Nat
  | [] => 0
  | item :: items => max item.depth (depthItems items)

/-- The greatest depth of a member. -/
def depthMembers : List (String × Json) → Nat
  | [] => 0
  | (_, value) :: members => max value.depth (depthMembers members)

end

/-! ## Canonical values

A value whose objects list their members by increasing name, each name once with its last value. -/

/-- Puts a member at its place by name; a member of that name gives way. -/
def insertMember (name : String) (value : Json) :
    List (String × Json) → List (String × Json)
  | [] => [(name, value)]
  | (other, kept) :: rest =>
    if name < other then (name, value) :: (other, kept) :: rest
    else if name = other then (name, value) :: rest
    else (other, kept) :: insertMember name value rest

mutual

/-- The value with the members of every object by increasing name, the last of a name kept. -/
def canonical : Json → Json
  | .arr items => .arr (canonicalItems items)
  | .obj members => .obj (canonicalMembers [] members)
  | .null => .null
  | .bool value => .bool value
  | .int value => .int value
  | .real lexeme => .real lexeme
  | .str text => .str text
  | .unpaired => .unpaired

/-- The canonical forms of a list of values. -/
def canonicalItems : List Json → List Json
  | [] => []
  | item :: items => item.canonical :: canonicalItems items

/-- The canonical forms of members, each put into `sorted` in turn. -/
def canonicalMembers (sorted : List (String × Json)) :
    List (String × Json) → List (String × Json)
  | [] => sorted
  | (name, value) :: members => canonicalMembers (insertMember name value.canonical sorted) members

end

end Json

end Lineage
