import Lineage.Source.Specification

/-!
# Parameter lists by offsets

A place in a text as an offset: the number of bytes in front of it, in UTF-8. A number is no offset
if it is greater than that of the end or falls within a character, and a text cannot be cut there.

Here a parameter list is found and split by offsets alone. The characters are gone through once, to
count parentheses and bytes, and what is returned is cut out of the whole text afterwards, between
offsets that are added up from those counts. Two things could go wrong on the way, a cut where there
is no offset and a parenthesis that is closed at depth zero, and both are faults.
-/

namespace Lineage.Source

/-! ## Offsets -/

/-- The number of bytes of some characters. -/
def byteLength : List Char → Nat
  | [] => 0
  | c :: text => c.utf8Size + byteLength text

/-- What is before and after an offset; none if the number is no offset of the text. -/
def cut? : Nat → List Char → Option (List Char × List Char)
  | 0, text => some ([], text)
  | _ + 1, [] => none
  | offset + 1, c :: text =>
    if c.utf8Size ≤ offset + 1 then
      (cut? (offset + 1 - c.utf8Size) text).map fun (front, back) => (c :: front, back)
    else none

/-- What goes wrong with offsets and depths. -/
inductive Fault where
  /-- A cut where there is no offset, or one that ends before it starts. -/
  | cut
  /-- A depth below zero. -/
  | depth
deriving DecidableEq

/-- The characters from an offset on. -/
def sliceFrom (text : List Char) (start : Nat) : Except Fault (List Char) :=
  match cut? start text with
  | some (_, back) => .ok back
  | none => .error .cut

/-- The characters between two offsets. -/
def slice (text : List Char) (start stop : Nat) : Except Fault (List Char) := do
  let back ← sliceFrom text start
  if stop < start then .error .cut
  else
    match cut? (stop - start) back with
    | some (inside, _) => .ok inside
    | none => .error .cut

/-! ## Parameter lists -/

/-- The offset of the parenthesis that closes the first one, `offset` bytes and `depth` open
parentheses into the characters; none if it is never closed. -/
def closingOffset? (depth offset : Nat) : List Char → Except Fault (Option Nat)
  | [] => .ok none
  | c :: rest =>
    let next := offset + c.utf8Size
    if c == '(' then closingOffset? (depth + 1) next rest
    else if c == ')' then
      match depth with
      | 0 => .error .depth
      | 1 => .ok (some offset)
      | depth + 2 => closingOffset? (depth + 1) next rest
    else closingOffset? depth next rest

/-- The parameter list after a gap at an offset, and the offset after it. Without a list the offset
stays, and a list that is never closed takes all. -/
def parameterListAt (text : List Char) (offset : Nat) :
    Except Fault (Option (List Char) × Nat) := do
  let rest ← sliceFrom text offset
  let trimmed := afterGap rest
  let start := offset + (byteLength rest - byteLength trimmed)
  if trimmed.head? = some '(' then
    let list ← sliceFrom text start
    match ← closingOffset? 0 0 list with
    | some length =>
      let stop := start + length
      return (some (← slice text (start + 1) stop), stop + 1)
    | none => return (some (← sliceFrom text (start + 1)), byteLength text)
  else return (none, offset)

/-- The parts of a text from `start` on, `offset` bytes and `depth` open parentheses into it. -/
def slicesFrom (text : List Char) (depth start offset : Nat) :
    List Char → Except Fault (List (List Char))
  | [] => do return [← sliceFrom text start]
  | c :: rest =>
    let next := offset + c.utf8Size
    if c == ',' && depth == 0 then do
      let part ← slice text start offset
      return part :: (← slicesFrom text depth (offset + 1) next rest)
    else if c == '(' then slicesFrom text (depth + 1) start next rest
    else if c == ')' then slicesFrom text (depth - 1) start next rest
    else slicesFrom text depth start next rest

/-- The parts of a parameter list between the commas outside inner parentheses. -/
def topLevelSlices (parameters : List Char) : Except Fault (List (List Char)) :=
  slicesFrom parameters 0 0 0 parameters

end Lineage.Source
