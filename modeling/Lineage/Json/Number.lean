import Lineage.Json.Basic

/-!
# JSON numbers

The grammar of a number: an optional minus, digits without a needless zero in front, an optional
fraction, an optional exponent. `Json.ofNumeral?` reads one.

Whether a number is too large for double precision depends on how its value is computed.
`Numeral.isFinite` rounds the exact value, once. `Numeral.isStorable` is about a computation that
rounds three times: as many digits as fit 64 bits make a significand, which is rounded, multiplied
by a rounded power of ten, and rounded again. The two differ only close to the greatest value, and
values that are kept go by the second.
-/

namespace Lineage.Json

/-- A number with one more decimal digit behind the others. -/
def appendDigit (n : Nat) (c : Char) : Nat := n * 10 + (c.toNat - '0'.toNat)

/-- The value of a list of decimal digits. -/
def digitsValue (digits : List Char) : Nat := digits.foldl appendDigit 0

/-- Whether a character may stand inside a number. -/
def isNumeral (c : Char) : Bool :=
  c.isDigit || c == '-' || c == '+' || c == '.' || c == 'e' || c == 'E'

/-- A number taken apart. -/
structure Numeral where
  negative : Bool
  whole : List Char
  fraction : Option (List Char)
  exponent : Option (Bool × List Char)

namespace Numeral

/-- Whether the digits are those of a whole part: not empty, and no zero in front of others. -/
def wholeDigits : List Char → Bool
  | [] => false
  | ['0'] => true
  | c :: _ => c != '0'

/-- The exponent that makes up all of a text, or none for the empty text. -/
def exponent? : List Char → Option (Option (Bool × List Char))
  | [] => some none
  | mark :: rest =>
    if mark != 'e' && mark != 'E' then none
    else
      let (negative, digits) :=
        match rest with
        | '-' :: digits => (true, digits)
        | '+' :: digits => (false, digits)
        | digits => (false, digits)
      if digits.isEmpty || !digits.all Char.isDigit then none else some (some (negative, digits))

/-- The number that makes up all of a text. -/
def ofChars? (cs : List Char) : Option Numeral :=
  let (negative, unsigned) :=
    match cs with
    | '-' :: rest => (true, rest)
    | _ => (false, cs)
  let (whole, rest) := unsigned.span Char.isDigit
  if !wholeDigits whole then none
  else
    match rest with
    | '.' :: rest =>
      let (fraction, rest) := rest.span Char.isDigit
      if fraction.isEmpty then none
      else (exponent? rest).map (⟨negative, whole, some fraction, ·⟩)
    | rest => (exponent? rest).map (⟨negative, whole, none, ·⟩)

/-- Whether the number is written with neither fraction nor exponent. -/
def isWhole (n : Numeral) : Bool := n.fraction.isNone && n.exponent.isNone

/-- The power of ten that the exponent stands for. -/
def power (n : Numeral) : Int :=
  match n.exponent with
  | none => 0
  | some (true, digits) => -(digitsValue digits : Int)
  | some (false, digits) => digitsValue digits

/-! ### Double precision -/

/-- The least magnitude that rounds to infinity in double precision. -/
def infinityBound : Nat := Nat.pow 2 1024 - Nat.pow 2 970

/-- Whether the number is small enough for double precision. -/
def isFinite (n : Numeral) : Bool :=
  let fraction := n.fraction.getD []
  let significand := digitsValue (n.whole ++ fraction)
  let places := (n.whole ++ fraction).dropWhile (· == '0') |>.length
  let power := n.power - fraction.length
  if significand == 0 then true
  else if 310 < places + power then false
  else if places + power < 308 then true
  else if 0 ≤ power then significand * Nat.pow 10 power.toNat < infinityBound
  else significand < infinityBound * Nat.pow 10 (-power).toNat

/-- The nearest multiple of a power of two that leaves 53 significant bits; of two equally near ones
the multiple of an even number. -/
def roundBits (n : Nat) : Nat :=
  let unit := Nat.pow 2 (n.log2 - 52)
  let below := n / unit
  let rest := 2 * (n % unit)
  if rest < unit || (rest == unit && below % 2 == 0) then below * unit else (below + 1) * unit

/-- A significand with further digits behind it, up to one that does not fit 64 bits any more, and
the digits that are left. -/
def takeDigits (significand : Nat) : List Char → Nat × List Char
  | [] => (significand, [])
  | c :: rest =>
    let longer := appendDigit significand c
    if longer < Nat.pow 2 64 then takeDigits longer rest else (significand, c :: rest)

/-- The significand of at most 64 bits and the power of ten that it is multiplied by. Digits of the
whole part that are left out raise the power; those of the fraction do not count. -/
def scaled (n : Numeral) : Nat × Int :=
  let (significand, left) := takeDigits 0 n.whole
  let fraction := n.fraction.getD []
  let (significand, unread) := takeDigits significand fraction
  (significand, n.power + left.length + unread.length - fraction.length)

/-- The greatest power of ten in double precision. -/
def maxPower : Int := 308

/-- Whether the number stays finite when its value is computed from its significand of 64 bits. -/
def isStorable (n : Numeral) : Bool :=
  let (significand, power) := n.scaled
  significand == 0 || power < 0 ||
    (power ≤ maxPower &&
      roundBits significand * roundBits (Nat.pow 10 power.toNat) < infinityBound)

end Numeral

/-- The JSON value of a numeral, given together with its text. -/
def ofNumeral (n : Numeral) (cs : List Char) : Json :=
  let magnitude := digitsValue n.whole
  if !n.isWhole || (n.negative && magnitude == 0) then .real (String.ofList cs)
  else if n.negative then
    if magnitude ≤ Nat.pow 2 63 then .int (-magnitude) else .real (String.ofList cs)
  else if magnitude < Nat.pow 2 64 then .int magnitude
  else .real (String.ofList cs)

/-- The JSON number that makes up all of a text. -/
def ofNumeral? (cs : List Char) : Option Json := (Numeral.ofChars? cs).map (ofNumeral · cs)

mutual

/-- Whether every number is storable and every string and name is a text: the values that can be
kept as they are, whatever they are for. -/
def isStorable : Json → Bool
  | .real lexeme => (Numeral.ofChars? lexeme.toList).any Numeral.isStorable
  | .unpaired => false
  | .arr items => areStorable items
  | .obj members => membersStorable members
  | _ => true

/-- Whether every item is storable. -/
def areStorable : List Json → Bool
  | [] => true
  | item :: items => item.isStorable && areStorable items

/-- Whether every member is storable. -/
def membersStorable : List (String × Json) → Bool
  | [] => true
  | (_, value) :: members => value.isStorable && membersStorable members

end

end Lineage.Json
