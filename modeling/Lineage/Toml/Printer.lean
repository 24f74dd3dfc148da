import Lineage.Toml.Text

/-!
# Writing TOML

Texts and keys are written in the plainest form that holds them. A text that needs no escape stands
between quotes; one with quotes or backslashes stands between apostrophes if it can; one that has
line feeds or both marks goes over several lines; what is left is escaped.
-/

namespace Lineage.Toml

/-- What decides the form in which a text is written. -/
structure Features where
  /-- The longest run of apostrophes. -/
  apostrophes : Nat
  /-- The longest run of quotes. -/
  quotes : Nat
  hasBackslash : Bool
  hasNewline : Bool
  /-- Whether there is a control that only an escape can stand for. -/
  hasControl : Bool

/-- The longest run of a character, given the run that the text before ends in. -/
def longestRun (c : Char) (run : Nat) : List Char → Nat
  | [] => run
  | d :: rest => if d == c then longestRun c (run + 1) rest else max run (longestRun c 0 rest)

/-- The features of a text. -/
def Features.of (cs : List Char) : Features where
  apostrophes := longestRun '\'' 0 cs
  quotes := longestRun '"' 0 cs
  hasBackslash := cs.contains '\\'
  hasNewline := cs.contains '\n'
  hasControl := cs.any fun c => !isPlain c && c != '\n'

/-- A digit of a hexadecimal number, in upper case. -/
def hexChar (n : Nat) : Char := if n < 10 then Char.ofNat (48 + n) else Char.ofNat (55 + n)

/-- A character other than a quote inside a text with escapes. -/
def escapeChar (multiline : Bool) (c : Char) : List Char :=
  if c == '\x08' then ['\\', 'b']
  else if c == '\t' then ['\\', 't']
  else if c == '\n' then if multiline then [c] else ['\\', 'n']
  else if c == '\x0c' then ['\\', 'f']
  else if c == '\r' then ['\\', 'r']
  else if c == '\\' then ['\\', '\\']
  else if !isPlain c then
    ['\\', 'u', '0', '0', hexChar (c.toNat / 16), hexChar (c.toNat % 16)]
  else [c]

/-- The characters of a text with escapes. On one line every quote is escaped, over several lines
only the third in a row; `run` counts the quotes just written. -/
def escape (multiline : Bool) (run : Nat) : List Char → List Char
  | [] => []
  | c :: rest =>
    if c == '"' then
      if multiline && run < 2 then c :: escape multiline (run + 1) rest
      else '\\' :: c :: escape multiline 0 rest
    else escapeChar multiline c ++ escape multiline 0 rest

/-- A text on one line, with escapes. -/
def quoted (cs : List Char) : String := "\"" ++ String.ofList (escape false 0 cs) ++ "\""

/-- A text over several lines if it has line feeds, between three marks. -/
def blockOf (mark : String) (newline : Bool) (body : List Char) : String :=
  mark ++ (if newline then "\n" else "") ++ String.ofList body ++ mark

/-- A text as a value. -/
def writeText (s : String) : String :=
  let cs := s.toList
  let f := Features.of cs
  let block := blockOf "\"\"\"" f.hasNewline (escape true 0 cs)
  if !f.hasControl && !f.hasBackslash && f.quotes == 0 && !f.hasNewline then quoted cs
  else if !f.hasControl && f.apostrophes == 0 && !f.hasNewline then "'" ++ s ++ "'"
  else if !f.hasControl && !f.hasBackslash && f.quotes ≤ 2 then block
  else if !f.hasControl && f.apostrophes ≤ 2 then blockOf "'''" f.hasNewline cs
  else if f.hasNewline then block
  else quoted cs

/-- A text as a key. -/
def writeKey (s : String) : String :=
  let cs := s.toList
  let f := Features.of cs
  if !cs.isEmpty && cs.all isBare then s
  else if !f.hasControl && !f.hasBackslash && f.quotes == 0 && !f.hasNewline then quoted cs
  else if !f.hasControl && f.apostrophes == 0 && !f.hasNewline then "'" ++ s ++ "'"
  else quoted cs

/-- A list of texts: two or more are written one to a line. -/
def writeTexts : List String → String
  | [] => "[]"
  | [s] => "[" ++ writeText s ++ "]"
  | texts => "[\n" ++ String.join (texts.map fun s => "    " ++ writeText s ++ ",\n") ++ "]"

/-- A line with a key and a value. -/
def writeEntry (key value : String) : String := writeKey key ++ " = " ++ value ++ "\n"

end Lineage.Toml
