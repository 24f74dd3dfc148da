import Lineage.Json.Token

/-!
# Reading JSON

A value is read from its tokens one by one. The state of the reader is the containers that are
still open, innermost first, each with what it holds so far, and what may come next. A reader
that recursed on values would need a bound on their depth; this one recurses on the tokens.
-/

namespace Lineage.Json

/-- The members of an object so far, latest first; none if the object has a name that is no text. -/
abbrev Members := Option (List (String × Json))

namespace Members

/-- The members with one more. -/
def add (members : Members) (name : Option String) (value : Json) : Members := do
  return (← name, value) :: (← members)

/-- The object with these members. -/
def toJson (members : Members) : Json :=
  (members.map fun found => .obj found.reverse).getD .unpaired

end Members

/-- A container that is still open, with its contents so far. Those of an array are latest first.
An object also has the name of the member whose value is being read, none if it is no text. -/
inductive Open where
  | arr (items : List Json)
  | obj (members : Members) (name : Option String)

/-- What a reader has read and what it expects next. -/
inductive Reading where
  /-- A value. -/
  | needValue (around : List Open)
  /-- A first item, or the end of the array. -/
  | firstItem (around : List Open)
  /-- A first name, or the end of the object. -/
  | firstName (around : List Open)
  /-- A further name. -/
  | needName (members : Members) (around : List Open)
  /-- The colon after a name. -/
  | needColon (members : Members) (name : Option String) (around : List Open)
  /-- A comma, or the end of the array. -/
  | afterItem (items : List Json) (around : List Open)
  /-- A comma, or the end of the object. -/
  | afterMember (members : Members) (around : List Open)
  /-- Nothing. -/
  | finished (value : Json)

namespace Reading

/-- Hands a complete value to the container around it. -/
def deliver (value : Json) : List Open → Reading
  | [] => .finished value
  | .arr items :: around => .afterItem (value :: items) around
  | .obj members name :: around => .afterMember (members.add name value) around

/-- Starts a value. -/
def start (around : List Open) : Token → Option Reading
  | .literal value => some (deliver value around)
  | .string (some text) => some (deliver (.str text) around)
  | .string none => some (deliver .unpaired around)
  | .openArr => some (.firstItem around)
  | .openObj => some (.firstName around)
  | _ => none

/-- Takes one token. -/
def step : Reading → Token → Option Reading
  | .needValue around, t => start around t
  | .firstItem around, .closeArr => some (deliver (.arr []) around)
  | .firstItem around, t => start (.arr [] :: around) t
  | .firstName around, .closeObj => some (deliver (.obj []) around)
  | .firstName around, .string name => some (.needColon (some []) name around)
  | .needName members around, .string name => some (.needColon members name around)
  | .needColon members name around, .colon => some (.needValue (.obj members name :: around))
  | .afterItem items around, .comma => some (.needValue (.arr items :: around))
  | .afterItem items around, .closeArr => some (deliver (.arr items.reverse) around)
  | .afterMember members around, .comma => some (.needName members around)
  | .afterMember members around, .closeObj => some (deliver members.toJson around)
  | _, _ => none

/-- Takes tokens one after the other. -/
def run (reading : Reading) (ts : List Token) : Option Reading := ts.foldlM step reading

/-- The value, if the reader has read one to its end. -/
def result? : Reading → Option Json
  | .finished value => some value
  | _ => none

end Reading

/-- The value that a text denotes; none if the text is not JSON. -/
def parse (text : String) : Option Json :=
  ((Reading.needValue []).run (tokens text.toList)).bind Reading.result?

end Lineage.Json
