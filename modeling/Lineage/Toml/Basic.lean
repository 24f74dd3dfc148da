/-!
# TOML values

The values of a TOML document, as far as settings need them: texts, arrays and tables. Numbers and
truth values are checked when they are read and then kept as `scalar`, and dates and times as
`moment`; no setting is of either type.
-/

namespace Lineage.Toml

/-- A TOML value. -/
inductive Value where
  | text (s : String)
  | scalar
  | moment
  | array (items : List Value)
  | table (entries : List (String × Value))

/-- Whether a character may stand in a comment or a literal text: a tab or no control. -/
def isPlain (c : Char) : Bool := c == '\t' || (0x20 ≤ c.toNat && c.toNat != 0x7F)

/-- Whether a character is a blank within a line. -/
def isSpace (c : Char) : Bool := c == ' ' || c == '\t'

/-- A text without the blanks at its start. -/
def skipSpace (cs : List Char) : List Char := cs.dropWhile isSpace

/-- The rest after a line end, which is a line feed with or without a carriage return. -/
def newline? : List Char → Option (List Char)
  | '\n' :: rest => some rest
  | '\r' :: '\n' :: rest => some rest
  | _ => none

/-- The rest from the end of a comment on; none if the comment holds a control. -/
def skipComment (cs : List Char) : Option (List Char) :=
  match cs with
  | '#' :: rest =>
    let rest := rest.dropWhile isPlain
    if rest.isEmpty || (newline? rest).isSome then some rest else none
  | _ => some cs

/-- Passes over blanks, comments and line ends, at most `fuel` lines. -/
def skipLines (fuel : Nat) (cs : List Char) : Option (List Char) :=
  match fuel with
  | 0 => some (skipSpace cs)
  | fuel + 1 => do
    let rest ← skipComment (skipSpace cs)
    match newline? rest with
    | some rest => skipLines fuel rest
    | none => some rest

/-- Passes over blanks, comments and line ends. -/
def skipBlank (cs : List Char) : Option (List Char) := skipLines cs.length cs

end Lineage.Toml
