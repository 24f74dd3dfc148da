import Lineage.Instant
import Lineage.Json.Number
import Lineage.Toml.Basic

/-!
# Numbers, truth values, dates and times in TOML

These are told apart by the whole run of characters that they can be made of. A number may have
single underscores between digits. Integers must fit into 64 bits, with sign, and floating-point
numbers must not be too great for double precision.
-/

namespace Lineage.Toml

/-- Whether a character may stand in a number, a truth value, a date or a time. -/
def isLexeme (c : Char) : Bool :=
  c.isAlphanum || c == '+' || c == '-' || c == '_' || c == '.' || c == ':'

/-- The digits without the underscores between them; none if an underscore has no digit on either
side. -/
def digits? (isDigit : Char → Bool) : List Char → Option (List Char)
  | [] => none
  | [c] => if isDigit c then some [c] else none
  | c :: '_' :: rest => if isDigit c then (digits? isDigit rest).map (c :: ·) else none
  | c :: rest => if isDigit c then (digits? isDigit rest).map (c :: ·) else none

/-- A lexeme without its sign, and whether the sign is a minus. -/
def unsigned : List Char → Bool × List Char
  | '-' :: rest => (true, rest)
  | '+' :: rest => (false, rest)
  | cs => (false, cs)

/-- Whether digits denote a number below `bound` in a base. -/
def fitsBelow (bound base : Nat) (digits : List Char) : Bool :=
  digits.foldl (fun n c => n * base + (if c.isDigit then c.toNat - 48 else c.toLower.toNat - 87)) 0
    < bound

/-- Whether a lexeme is an integer in a base other than ten. -/
def isBasedInteger (base : Nat) (isDigit : Char → Bool) (cs : List Char) : Bool :=
  (digits? isDigit cs).any (fitsBelow (Nat.pow 2 63) base)

/-- Whether a lexeme is an integer. -/
def isInteger (cs : List Char) : Bool :=
  match cs with
  | '0' :: 'x' :: rest =>
    isBasedInteger 16 (fun c => c.isDigit || ('a' ≤ c.toLower && c.toLower ≤ 'f')) rest
  | '0' :: 'o' :: rest => isBasedInteger 8 (fun c => '0' ≤ c && c ≤ '7') rest
  | '0' :: 'b' :: rest => isBasedInteger 2 (fun c => c == '0' || c == '1') rest
  | _ =>
    let (negative, magnitude) := unsigned cs
    match digits? Char.isDigit magnitude with
    | some digits =>
      Json.Numeral.wholeDigits digits &&
        fitsBelow (if negative then Nat.pow 2 63 + 1 else Nat.pow 2 63) 10 digits
    | none => false

/-- Whether every underscore of a lexeme stands between two digits. -/
def separatesDigits : List Char → Bool
  | a :: '_' :: b :: rest => a.isDigit && b.isDigit && separatesDigits (b :: rest)
  | '_' :: _ => false
  | [_, '_'] => false
  | _ :: rest => separatesDigits rest
  | [] => true

/-- Whether a lexeme is a floating-point number. -/
def isFloat (cs : List Char) : Bool :=
  let (negative, magnitude) := unsigned cs
  if magnitude == ['i', 'n', 'f'] || magnitude == ['n', 'a', 'n'] then true
  else
    match Json.Numeral.ofChars? (magnitude.filter (· != '_')) with
    | some n =>
      magnitude.head? != some '-' && separatesDigits magnitude && !n.isWhole &&
        (negative || n.isFinite)
    | none => false

/-! ## Dates and times -/

/-- A number of two digits that is no greater than `most`, and the rest. -/
def pair? (most : Nat) (cs : List Char) : Option (Nat × List Char) :=
  (Instant.twoDigits? cs).filter (·.1 ≤ most)

/-- The rest after a character. -/
def expect? (c : Char) : List Char → Option (List Char)
  | d :: rest => if c == d then some rest else none
  | [] => none

/-- The rest after a date. -/
def date? (cs : List Char) : Option (List Char) := do
  let (century, rest) ← pair? 99 cs
  let (year, rest) ← pair? 99 rest
  let (month, rest) ← pair? 12 (← expect? '-' rest)
  let (day, rest) ← pair? 31 (← expect? '-' rest)
  if Instant.isDate (century * 100 + year : Nat) month day then some rest else none

/-- The rest after a time of day. -/
def time? (cs : List Char) : Option (List Char) := do
  let (_, rest) ← pair? 23 cs
  let (_, rest) ← pair? 59 (← expect? ':' rest)
  let (_, rest) ← pair? 60 (← expect? ':' rest)
  match rest with
  | '.' :: rest =>
    if (rest.head?.any Char.isDigit) then some (rest.dropWhile Char.isDigit) else none
  | rest => some rest

/-- Whether a text is empty or an offset from UTC. -/
def isOffset : List Char → Bool
  | [] => true
  | ['Z'] => true
  | ['z'] => true
  | sign :: rest =>
    (sign == '+' || sign == '-') &&
      (match pair? 23 rest with
      | some (_, ':' :: rest) => (pair? 59 rest).any (·.2.isEmpty)
      | _ => false)

/-- Whether a lexeme is a time of day with an optional offset. -/
def isTimeWithOffset (cs : List Char) : Bool := (time? cs).any isOffset

/-- Whether a lexeme is a date, a time of day, or both joined by the letter T. -/
def isMoment (cs : List Char) : Bool :=
  (time? cs).any List.isEmpty ||
    (match date? cs with
    | some [] => true
    | some (mark :: rest) => (mark == 'T' || mark == 't') && isTimeWithOffset rest
    | none => false)

/-- The value that is not a text, an array or a table, and the rest. A date may be followed by a
space and a time. -/
def scalarValue? (cs : List Char) : Option (Value × List Char) :=
  let (lexeme, rest) := cs.span isLexeme
  if lexeme == ['t', 'r', 'u', 'e'] || lexeme == ['f', 'a', 'l', 's', 'e'] then
    some (.scalar, rest)
  else if isMoment lexeme then
    match date? lexeme, rest with
    | some [], ' ' :: after =>
      let (clock, rest') := after.span isLexeme
      some (.moment, if isTimeWithOffset clock then rest' else rest)
    | _, _ => some (.moment, rest)
  else if isInteger lexeme || isFloat lexeme then some (.scalar, rest)
  else none

end Lineage.Toml
