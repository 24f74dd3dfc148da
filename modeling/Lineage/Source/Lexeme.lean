import Lineage.Text.CharClass
import Lineage.Text.Scan

/-!
# Lexemes

The pieces that references in a source text are made of: keywords in any case, names, qualified
names and the gaps between them. Each function looks at the front of a text and says how much of it
the piece takes.

Letters of keywords and the first letter of a name are matched by simple case folding, under which
the long s counts as an S and the Kelvin sign as a K.
-/

namespace Lineage.Source

/-- The letter that a character counts as in a keyword. -/
def foldLetter (c : Char) : Char :=
  if c == '\u017F' then 'S' else if c == '\u212A' then 'K' else c.toUpper

/-- Whether a text starts with a keyword, which is given in upper case. -/
def startsWithKeyword : List Char → List Char → Bool
  | [], _ => true
  | _ :: _, [] => false
  | k :: keyword, c :: text => foldLetter c == k && startsWithKeyword keyword text

/-- Whether a character may start a name. -/
def isNameStart (c : Char) : Bool := c.isAlpha || c == '_' || c == '\u017F' || c == '\u212A'

/-- Whether a character may stand inside a name. -/
def isNameChar (c : Char) : Bool := Text.isWord c || c == '$' || c == '#'

/-- Whether a word may start after the characters `before`, the nearest first. -/
def atWordStart (before : List Char) : Bool := !before.head?.any Text.isWord

/-- Whether a word may end before a text. -/
def atWordEnd (text : List Char) : Bool := !text.head?.any Text.isWord

/-- The number of blanks at the front of a text. -/
def gap (text : List Char) : Nat := (text.takeWhile Text.isBlank).length

/-- The name at the front of a text. -/
def name? : List Char → Option (List Char)
  | [] => none
  | c :: text => if isNameStart c then some (c :: text.takeWhile isNameChar) else none

/-- The name at the front of a text, with a second one if a dot joins them. -/
def qualifiedName? (text : List Char) : Option (List Char) :=
  (name? text).map fun first =>
    match text.drop first.length with
    | '.' :: rest =>
      match name? rest with
      | some second => first ++ '.' :: second
      | none => first
    | _ => first

/-- The number of characters that a phrase takes at the front of a text: its keywords in turn, each
followed by at least one blank. -/
def phrase? : List (List Char) → List Char → Option Nat
  | [], _ => some 0
  | keyword :: keywords, text =>
    if startsWithKeyword keyword text then
      let rest := text.drop keyword.length
      if gap rest = 0 then none
      else (phrase? keywords (rest.drop (gap rest))).map (keyword.length + gap rest + ·)
    else none

/-- The word before a position, blanks between them aside: a run of alphanumeric characters and
underscores, empty if there is none. The argument is the characters before the position, nearest
first. -/
def previousWord (before : List Char) : List Char :=
  ((Text.trimStart before).takeWhile fun c => Text.isAlphanumeric c || c == '_').reverse

end Lineage.Source
