import Lineage.Json.Number
import Lineage.Text.Scan

/-!
# JSON tokens

A text as punctuation, literals, numbers and strings, with the blanks left out. What fits no
token becomes `invalid`, which no value contains, so the tokens of a text that is not JSON are
refused by whoever reads them.

Strings are read in two steps: first into pieces, which are characters and the 16-bit units of
`\u` escapes, and then into text, where two units may have to be joined.
-/

namespace Lineage.Json

/-- A lexical element of a JSON text. -/
inductive Token where
  | openObj
  | closeObj
  | openArr
  | closeArr
  | comma
  | colon
  | literal (value : Json)
  | string (content : Option String)
  | invalid

/-! ## Strings -/

/-- A part of a string: a character, or the unit of a `\u` escape. -/
inductive Piece where
  | char (c : Char)
  | unit (n : Nat)

/-- The value of a hexadecimal digit of either case. -/
def hexDigit? (c : Char) : Option Nat :=
  if '0' ≤ c ∧ c ≤ '9' then some (c.toNat - '0'.toNat)
  else if 'a' ≤ c ∧ c ≤ 'f' then some (c.toNat - 'a'.toNat + 10)
  else if 'A' ≤ c ∧ c ≤ 'F' then some (c.toNat - 'A'.toNat + 10)
  else none

/-- The value of four hexadecimal digits. -/
def unit? (a b c d : Char) : Option Nat := do
  return (((← hexDigit? a) * 16 + (← hexDigit? b)) * 16 + (← hexDigit? c)) * 16 + (← hexDigit? d)

/-- The character that a one-letter escape stands for. -/
def escaped? : Char → Option Char
  | '"' => some '"'
  | '\\' => some '\\'
  | '/' => some '/'
  | 'b' => some '\x08'
  | 'f' => some '\x0c'
  | 'n' => some '\n'
  | 'r' => some '\r'
  | 't' => some '\t'
  | _ => none

/-- The pieces up to the closing quote, latest first, and the number of characters taken. -/
def pieces (found : List Piece) (taken : Nat) : List Char → Option (List Piece × Nat)
  | [] => none
  | '"' :: _ => some (found, taken + 1)
  | '\\' :: 'u' :: a :: b :: c :: d :: rest =>
    match unit? a b c d with
    | some n => pieces (.unit n :: found) (taken + 6) rest
    | none => none
  | '\\' :: e :: rest =>
    match escaped? e with
    | some c => pieces (.char c :: found) (taken + 2) rest
    | none => none
  | c :: rest => if c.toNat < 0x20 then none else pieces (.char c :: found) (taken + 1) rest

/-- Whether a 16-bit unit is the first half of a pair. -/
def isHighSurrogate (n : Nat) : Bool := 0xD800 ≤ n && n ≤ 0xDBFF

/-- Whether a 16-bit unit is the second half of a pair. -/
def isLowSurrogate (n : Nat) : Bool := 0xDC00 ≤ n && n ≤ 0xDFFF

/-- The characters that pieces stand for, after those in `found`, latest first. There are none if
a unit lacks the other half of its pair. -/
def joinPieces (found : List Char) : List Piece → Option (List Char)
  | [] => some found.reverse
  | .char c :: rest => joinPieces (c :: found) rest
  | .unit n :: .unit m :: rest =>
    if isHighSurrogate n then
      if isLowSurrogate m then
        joinPieces (Char.ofNat (0x10000 + (n - 0xD800) * 0x400 + (m - 0xDC00)) :: found) rest
      else none
    else if isLowSurrogate n then none
    else joinPieces (Char.ofNat n :: found) (.unit m :: rest)
  | .unit n :: rest =>
    if isHighSurrogate n || isLowSurrogate n then none else joinPieces (Char.ofNat n :: found) rest

/-! ## Tokens -/

/-- The literal names and the values they stand for. -/
def literals : List (List Char × Json) :=
  [("true".toList, .bool true), ("false".toList, .bool false), ("null".toList, .null)]

/-- The token at the front of a text that does not start with a blank, and its length. -/
def tokenAt (cs : List Char) : Token × Nat :=
  match cs with
  | '{' :: _ => (.openObj, 1)
  | '}' :: _ => (.closeObj, 1)
  | '[' :: _ => (.openArr, 1)
  | ']' :: _ => (.closeArr, 1)
  | ',' :: _ => (.comma, 1)
  | ':' :: _ => (.colon, 1)
  | '"' :: rest =>
    match pieces [] 1 rest with
    | some (found, taken) => (.string ((joinPieces [] found.reverse).map String.ofList), taken)
    | none => (.invalid, 1)
  | _ =>
    match literals.find? (·.1.isPrefixOf cs) with
    | some (name, value) => (.literal value, name.length)
    | none =>
      let numeral := cs.takeWhile isNumeral
      match ofNumeral? numeral with
      | some value => (.literal value, numeral.length)
      | none => (.invalid, 1)

/-- Whether a character may stand between tokens. -/
def isSpace (c : Char) : Bool := c == ' ' || c == '\n' || c == '\t' || c == '\r'

/-- Recognises a token anywhere but at a blank. -/
def token : Text.Recogniser Token
  | _, [] => none
  | _, c :: rest => if isSpace c then none else some (tokenAt (c :: rest))

/-- The tokens of a text. -/
def tokens (text : List Char) : List Token := Text.scan token text

end Lineage.Json
