import Lineage.Json.Token
import Lineage.Toml.Basic

/-!
# Texts and keys in TOML

A text is written in one of four ways: between quotes, where a backslash starts an escape, or
between apostrophes, where it does not, and each either on one line or, between three of them, over
several. A key is a run of letters, digits, underscores and dashes, or a text on one line; keys
joined by dots form a path.
-/

namespace Lineage.Toml

/-- The character of a code point, unless it is a surrogate or beyond the last one. -/
def scalar? (n : Nat) : Option Char := if n.isValidChar then some (Char.ofNat n) else none

/-- The character that an escape with one letter stands for. -/
def escaped? : Char → Option Char
  | 'b' => some '\x08'
  | 't' => some '\t'
  | 'n' => some '\n'
  | 'f' => some '\x0c'
  | 'r' => some '\r'
  | '"' => some '"'
  | '\\' => some '\\'
  | _ => none

/-- The characters up to the closing quote or quotes, after those in `found`, latest first, and
the rest. While `joining`, blanks and line ends are passed over: a backslash before a line end
joins the line with the next one that is not blank. -/
def quotedBody (multiline joining : Bool) (found : List Char) :
    List Char → Option (List Char × List Char)
  | [] => none
  | '"' :: rest =>
    if !multiline then some (found.reverse, rest)
    else
      match rest with
      | '"' :: '"' :: '"' :: '"' :: rest => some (('"' :: '"' :: found).reverse, rest)
      | '"' :: '"' :: '"' :: rest => some (('"' :: found).reverse, rest)
      | '"' :: '"' :: rest => some (found.reverse, rest)
      | _ => quotedBody multiline false ('"' :: found) rest
  | '\\' :: 'u' :: a :: b :: c :: d :: rest =>
    match (Json.unit? a b c d).bind scalar? with
    | some x => quotedBody multiline false (x :: found) rest
    | none => none
  | '\\' :: 'U' :: a :: b :: c :: d :: e :: f :: g :: h :: rest =>
    match Json.unit? a b c d, Json.unit? e f g h with
    | some high, some low =>
      match scalar? (high * 0x10000 + low) with
      | some x => quotedBody multiline false (x :: found) rest
      | none => none
    | _, _ => none
  | '\\' :: e :: rest =>
    match escaped? e with
    | some x => quotedBody multiline false (x :: found) rest
    | none =>
      if multiline && (newline? (skipSpace (e :: rest))).isSome then
        quotedBody multiline true found (e :: rest)
      else none
  | '\r' :: '\n' :: rest =>
    if !multiline then none
    else if joining then quotedBody multiline true found rest
    else quotedBody multiline false ('\n' :: found) rest
  | c :: rest =>
    if c == '\n' then
      if !multiline then none
      else if joining then quotedBody multiline true found rest
      else quotedBody multiline false ('\n' :: found) rest
    else if joining && isSpace c then quotedBody multiline true found rest
    else if isPlain c && c != '\\' then quotedBody multiline false (c :: found) rest
    else none

/-- The characters up to the closing apostrophe or apostrophes, and the rest. -/
def literalBody (multiline : Bool) (found : List Char) :
    List Char → Option (List Char × List Char)
  | [] => none
  | '\'' :: rest =>
    if !multiline then some (found.reverse, rest)
    else
      match rest with
      | '\'' :: '\'' :: '\'' :: '\'' :: rest => some (('\'' :: '\'' :: found).reverse, rest)
      | '\'' :: '\'' :: '\'' :: rest => some (('\'' :: found).reverse, rest)
      | '\'' :: '\'' :: rest => some (found.reverse, rest)
      | _ => literalBody multiline ('\'' :: found) rest
  | '\r' :: '\n' :: rest => if multiline then literalBody multiline ('\n' :: found) rest else none
  | c :: rest =>
    if isPlain c || (multiline && c == '\n') then literalBody multiline (c :: found) rest else none

/-- A line end right after the opening of a text over several lines is not part of it. -/
def skipFirstNewline (cs : List Char) : List Char := (newline? cs).getD cs

/-- A text on one line. -/
def lineText? : List Char → Option (List Char × List Char)
  | '"' :: rest => quotedBody false false [] rest
  | '\'' :: rest => literalBody false [] rest
  | _ => none

/-- A text, and the rest. -/
def text? : List Char → Option (List Char × List Char)
  | '"' :: '"' :: '"' :: rest => quotedBody true false [] (skipFirstNewline rest)
  | '\'' :: '\'' :: '\'' :: rest => literalBody true [] (skipFirstNewline rest)
  | cs => lineText? cs

/-- Whether a character may stand in a bare key. -/
def isBare (c : Char) : Bool := c.isAlphanum || c == '_' || c == '-'

/-- One part of a key, and the rest. -/
def keyPart? (cs : List Char) : Option (String × List Char) :=
  match cs.takeWhile isBare with
  | [] => (lineText? cs).map fun (name, rest) => (String.ofList name, rest)
  | name => some (String.ofList name, cs.drop name.length)

/-- The parts of a key, with blanks around the dots, and the rest; at most `fuel` parts. -/
def keyParts? (fuel : Nat) (cs : List Char) : Option (List String × List Char) :=
  match fuel with
  | 0 => none
  | fuel + 1 => do
    let (part, rest) ← keyPart? (skipSpace cs)
    match skipSpace rest with
    | '.' :: rest => do
      let (parts, rest) ← keyParts? fuel rest
      some (part :: parts, rest)
    | rest => some ([part], rest)

/-- The most parts that a key may have. -/
def maxKeyParts : Nat := 79

/-- A key as the path of its parts, and the rest after it. -/
def key? (cs : List Char) : Option (List String × List Char) := keyParts? maxKeyParts cs

end Lineage.Toml
