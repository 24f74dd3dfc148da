import Lineage.Text.CharClass

/-!
# Instants

A point in time with nanoseconds, kept as seconds from the start of 1970 in UTC. Instants are read
from RFC 3339 texts in a lenient form: blanks may stand before each number, the date and the time
are set apart by `T`, `t` or a space, the zone may be `Z`, `UTC` or an offset whose hours and
minutes are set apart by any run of colons and blanks, and a fraction may have more digits than
count. They are written in UTC with the fewest of 0, 3, 6 or 9 fraction digits that lose nothing.

The second 60 of a minute is kept as second 59 with a thousand million nanoseconds or more, so
that it is written as it was read.
-/

namespace Lineage

/-- A point in time. -/
structure Instant where
  /-- Seconds from the start of 1970, UTC. -/
  seconds : Int
  /-- Nanoseconds within the second; a thousand million more in the second 60 of a minute. -/
  nanos : Nat
deriving DecidableEq

namespace Instant

/-! ## The calendar

Years start in March here, so that the leap day is the last of its year, and eras are the periods
of 400 years after which the calendar repeats. -/

/-- The number of days from the first of March of year 0 to that of the year `y`, within an era. -/
def daysBeforeYear (y : Int) : Int := y * 365 + y / 4 - y / 100

/-- The number of days from the start of 1970 to a date. -/
def dayNumber (year month day : Int) : Int :=
  let y := if month ≤ 2 then year - 1 else year
  let era := y / 400
  let yearOfEra := y % 400
  let monthFromMarch := (month + 9) % 12
  let dayOfYear := (153 * monthFromMarch + 2) / 5 + day - 1
  era * 146097 + daysBeforeYear yearOfEra + dayOfYear - 719468

/-- The year, month and day of a day number. -/
def civilDate (dayNumber : Int) : Int × Int × Int :=
  let shifted := dayNumber + 719468
  let era := shifted / 146097
  let dayOfEra := shifted % 146097
  let yearOfEra := (dayOfEra - dayOfEra / 1460 + dayOfEra / 36524 - dayOfEra / 146096) / 365
  let dayOfYear := dayOfEra - daysBeforeYear yearOfEra
  let monthFromMarch := (5 * dayOfYear + 2) / 153
  let day := dayOfYear - (153 * monthFromMarch + 2) / 5 + 1
  let month := if monthFromMarch < 10 then monthFromMarch + 3 else monthFromMarch - 9
  (yearOfEra + era * 400 + (if month ≤ 2 then 1 else 0), month, day)

/-- The years that instants lie in. -/
def inRange (year : Int) : Bool := -262143 ≤ year && year ≤ 262142

/-- Whether a date is in the calendar. -/
def isDate (year month day : Int) : Bool :=
  inRange year && 1 ≤ month && month ≤ 12 && 1 ≤ day &&
    civilDate (dayNumber year month day) == (year, month, day)

/-! ## Reading -/

/-- The number at the front of a text, of at least one digit and at most `width`, and the rest. -/
def number? (width : Nat) (cs : List Char) : Option (Nat × List Char) :=
  let digits := (cs.take width).takeWhile Char.isDigit
  if digits.isEmpty then none
  else
    let value := digits.foldl (fun n c => n * 10 + (c.toNat - '0'.toNat)) 0
    some (value, cs.drop digits.length)

/-- A number after blanks, no wider than `width` and no greater than `most`. -/
def field? (width most : Nat) (cs : List Char) : Option (Nat × List Char) := do
  let (value, rest) ← number? width (Text.trimStart cs)
  if value ≤ most then some (value, rest) else none

/-- A year after blanks: four digits at most, or any number of digits after a sign. -/
def year? (cs : List Char) : Option (Int × List Char) :=
  match Text.trimStart cs with
  | '-' :: rest => (number? rest.length rest).map fun (n, rest) => (-(n : Int), rest)
  | '+' :: rest => (number? rest.length rest).map fun (n, rest) => ((n : Int), rest)
  | rest => (number? 4 rest).map fun (n, rest) => ((n : Int), rest)

/-- The rest of a text after blanks and one character. -/
def after? (c : Char) (cs : List Char) : Option (List Char) :=
  match Text.trimStart cs with
  | d :: rest => if d == c then some rest else none
  | [] => none

/-- The nanoseconds of an optional fraction; digits past the ninth do not count. -/
def fraction? : List Char → Option (Nat × List Char)
  | '.' :: rest => do
    let (value, _) ← number? 9 rest
    let digits := (rest.take 9).takeWhile Char.isDigit
    some (value * Nat.pow 10 (9 - digits.length), rest.dropWhile Char.isDigit)
  | rest => some (0, rest)

/-- The value of two digits. -/
def twoDigits? : List Char → Option (Nat × List Char)
  | a :: b :: rest =>
    if a.isDigit && b.isDigit then
      some ((a.toNat - '0'.toNat) * 10 + (b.toNat - '0'.toNat), rest)
    else none
  | _ => none

/-- The seconds that a zone is ahead of UTC, and the rest. -/
def zone? (cs : List Char) : Option (Int × List Char) :=
  let offset (sign : Int) (rest : List Char) : Option (Int × List Char) := do
    let (hours, rest) ← twoDigits? rest
    let (minutes, rest) ← twoDigits? (rest.dropWhile fun c => c == ':' || Text.isBlank c)
    if hours < 24 ∧ minutes < 60 then some (sign * (hours * 3600 + minutes * 60 : Nat), rest)
    else none
  match cs with
  | 'Z' :: rest => some (0, rest)
  | 'z' :: rest => some (0, rest)
  | '+' :: rest => offset 1 rest
  | '-' :: rest => offset (-1) rest
  | '\u2212' :: rest => offset (-1) rest
  | _ => if (cs.take 3).map Char.toUpper == ['U', 'T', 'C'] then some (0, cs.drop 3) else none

/-- The instant at a time of day in a zone; none outside the calendar. -/
def ofFields? (year month day : Int) (hour minute second nanos : Nat) (zone : Int) :
    Option Instant :=
  if !isDate year month day then none
  else
    let (second, nanos) := if second = 60 then (59, nanos + 1000000000) else (second, nanos)
    let ofDay : Nat := hour * 3600 + minute * 60 + second
    let seconds := dayNumber year month day * 86400 + ofDay - zone
    if inRange (civilDate (seconds / 86400)).1 then some ⟨seconds, nanos⟩ else none

/-- The instant that a text states. -/
def ofString? (s : String) : Option Instant := do
  let (year, rest) ← year? s.toList
  let rest ← after? '-' rest
  let (month, rest) ← field? 2 12 rest
  let rest ← after? '-' rest
  let (day, rest) ← field? 2 31 rest
  let rest ←
    match rest with
    | c :: rest => if c == 'T' || c == 't' || c == ' ' then some rest else none
    | [] => none
  let (hour, rest) ← field? 2 23 rest
  let rest ← after? ':' rest
  let (minute, rest) ← field? 2 59 rest
  let rest ← after? ':' rest
  let (second, rest) ← field? 2 60 rest
  let (nanos, rest) ← fraction? rest
  let (zone, rest) ← zone? (Text.trimStart rest)
  if rest.all Text.isBlank then ofFields? year month day hour minute second nanos zone else none

/-! ## Writing -/

/-- A number with zeros in front up to a width. -/
def padded (width n : Nat) : String :=
  let digits := toString n
  "".pushn '0' (width - digits.length) ++ digits

/-- A year: four digits, or a sign and at least four digits outside the years 0 to 9999. -/
def yearText (year : Int) : String :=
  if 0 ≤ year ∧ year ≤ 9999 then padded 4 year.toNat
  else (if year < 0 then "-" else "+") ++ padded 4 year.natAbs

/-- The fraction of a second, by the fewest of 0, 3, 6 or 9 digits. -/
def fractionText (nanos : Nat) : String :=
  if nanos = 0 then ""
  else if nanos % 1000000 = 0 then "." ++ padded 3 (nanos / 1000000)
  else if nanos % 1000 = 0 then "." ++ padded 6 (nanos / 1000)
  else "." ++ padded 9 nanos

/-- The date and the time of day of an instant in UTC. -/
def dateTimeText (t : Instant) : String :=
  let (year, month, day) := civilDate (t.seconds / 86400)
  let ofDay := (t.seconds % 86400).toNat
  let (extra, nanos) := if t.nanos < 1000000000 then (0, t.nanos) else (1, t.nanos - 1000000000)
  yearText year ++ "-" ++ padded 2 month.toNat ++ "-" ++ padded 2 day.toNat ++ "T" ++
    padded 2 (ofDay / 3600) ++ ":" ++ padded 2 (ofDay / 60 % 60) ++ ":" ++
    padded 2 (ofDay % 60 + extra) ++ fractionText nanos

/-- An instant in UTC, as data has it. -/
def toText (t : Instant) : String := t.dateTimeText ++ "Z"

/-- An instant in UTC with the offset written out, as reports have it. -/
def toOffsetText (t : Instant) : String := t.dateTimeText ++ "+00:00"

end Instant

end Lineage
