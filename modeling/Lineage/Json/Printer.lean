import Lineage.Json.Basic

/-!
# Writing JSON

One printer serves both layouts: `Layout.indented` puts every item and member on a line of its own,
two spaces deeper than the container, and `Layout.compact` writes no blank at all. Empty
containers are `[]` and `{}` in both. In strings only what must be escaped is: the quote, the
backslash and the controls below the space, those with a letter of their own by that letter.
-/

namespace Lineage.Json

/-- How the parts of a container are set apart. -/
structure Layout where
  /-- What stands before each item or member and before the closing bracket, by depth. -/
  newline : Nat → String
  /-- What stands between the name and the value of a member. -/
  colon : String

namespace Layout

/-- Nothing but the tokens. -/
def compact : Layout := ⟨fun _ => "", ":"⟩

/-- One item or member to a line, indented by two spaces for each container around it. -/
def indented : Layout := ⟨fun depth => "\n".pushn ' ' (2 * depth), ": "⟩

end Layout

/-- A digit of a hexadecimal number, in lower case. -/
def hexChar (n : Nat) : Char := if n < 10 then Char.ofNat (48 + n) else Char.ofNat (87 + n)

/-- A character as it stands inside a string. -/
def escapeChar (c : Char) : List Char :=
  if c == '"' then ['\\', '"']
  else if c == '\\' then ['\\', '\\']
  else if c == '\x08' then ['\\', 'b']
  else if c == '\x0c' then ['\\', 'f']
  else if c == '\n' then ['\\', 'n']
  else if c == '\r' then ['\\', 'r']
  else if c == '\t' then ['\\', 't']
  else if c.toNat < 0x20 then
    ['\\', 'u', '0', '0', hexChar (c.toNat / 16), hexChar (c.toNat % 16)]
  else [c]

/-- A text between quotes. -/
def quote (s : String) : String := "\"" ++ String.ofList (s.toList.flatMap escapeChar) ++ "\""

mutual

/-- Appends a value to `out`. -/
def writeTo (layout : Layout) (depth : Nat) (out : String) : Json → String
  | .null => out ++ "null"
  | .bool true => out ++ "true"
  | .bool false => out ++ "false"
  | .int n => out ++ toString n
  | .real lexeme => out ++ lexeme
  | .str text => out ++ quote text
  | .unpaired => out ++ "\"\""
  | .arr [] => out ++ "[]"
  | .arr (item :: items) =>
    let out := writeTo layout (depth + 1) (out ++ "[" ++ layout.newline (depth + 1)) item
    writeItemsTo layout (depth + 1) out items ++ layout.newline depth ++ "]"
  | .obj [] => out ++ "\x7b\x7d"
  | .obj ((name, value) :: members) =>
    let out := out ++ "\x7b" ++ layout.newline (depth + 1) ++ quote name ++ layout.colon
    let out := writeTo layout (depth + 1) out value
    writeMembersTo layout (depth + 1) out members ++ layout.newline depth ++ "\x7d"

/-- Appends further items of an array to `out`. -/
def writeItemsTo (layout : Layout) (depth : Nat) (out : String) : List Json → String
  | [] => out
  | item :: items =>
    writeItemsTo layout depth (writeTo layout depth (out ++ "," ++ layout.newline depth) item) items

/-- Appends further members of an object to `out`. -/
def writeMembersTo (layout : Layout) (depth : Nat) (out : String) :
    List (String × Json) → String
  | [] => out
  | (name, value) :: members =>
    let out := out ++ "," ++ layout.newline depth ++ quote name ++ layout.colon
    writeMembersTo layout depth (writeTo layout depth out value) members

end

/-- A value on one line. -/
def compact (value : Json) : String := writeTo .compact 0 "" value

/-- A value laid out over several lines. -/
def pretty (value : Json) : String := writeTo .indented 0 "" value

end Lineage.Json
