import Lineage.Text.Alphabetic
import Lineage.Text.Mark
import Lineage.Text.Numeral

/-!
# Character classes

The classes that separate names from their surroundings. Blanks are the Unicode property
`White_Space`, which has the no-break space and the ideographic space but not the zero-width ones.
Word characters are what an identifier is made of: alphabetic characters, marks, decimal digits,
connector punctuation such as the underscore, and the two join controls. ASCII is decided without
a table in each class.

The tables are those of version 17 of the standard. Words are those of version 16, so what the later
version added to them is kept apart and left out.
-/

namespace Lineage.Text

/-- Boundaries of the property `White_Space`. -/
def whiteSpace : Spans := ⟨[
  0x9, 0xE, 0x20, 0x21, 0x85, 0x86, 0xA0, 0xA1, 0x1680, 0x1681, 0x2000, 0x200B, 0x2028, 0x202A,
  0x202F, 0x2030, 0x205F, 0x2060, 0x3000, 0x3001]⟩

/-- Boundaries of the general category `Pc`, connector punctuation. -/
def connector : Spans := ⟨[
  0x5F, 0x60, 0x203F, 0x2041, 0x2054, 0x2055, 0xFE33, 0xFE35, 0xFE4D, 0xFE50, 0xFF3F, 0xFF40]⟩

/-- Boundaries of the property `Join_Control`: the zero-width joiner and non-joiner. -/
def joinControl : Spans := ⟨[0x200C, 0x200E]⟩

/-- Boundaries of the characters that version 17 adds to those of words. -/
def newInWords : Spans := ⟨[
  0x88F, 0x890, 0xC5C, 0xC5D, 0xCDC, 0xCDD, 0x1ACF, 0x1ADE, 0x1AE0, 0x1AEC, 0xA7CE, 0xA7D0,
  0xA7D2, 0xA7D3, 0xA7D4, 0xA7D5, 0xA7F1, 0xA7F2, 0x10940, 0x1095A, 0x10EC5, 0x10EC8, 0x10EFA,
  0x10EFC, 0x11B60, 0x11B68, 0x11DB0, 0x11DDC, 0x11DE0, 0x11DEA, 0x16EA0, 0x16EB9, 0x16EBB,
  0x16ED4, 0x16FF2, 0x16FF7, 0x187F8, 0x18800, 0x18D09, 0x18D1F, 0x18D80, 0x18DF3, 0x1E6C0,
  0x1E6DF, 0x1E6E0, 0x1E6F6, 0x1E6FE, 0x1E700, 0x2B73A, 0x2B740, 0x2CEA2, 0x2CEAE, 0x323B0,
  0x3347A]⟩

/-- Whether a character is white space. -/
def isBlank (c : Char) : Bool := whiteSpace.contains c.toNat

/-- Whether a character is alphabetic or a number of any kind. -/
def isAlphanumeric (c : Char) : Bool :=
  if c.toNat < 128 then c.isAlphanum
  else alphabetic.contains c.toNat || decimalDigit.contains c.toNat || otherNumber.contains c.toNat

/-- Whether a character may stand inside a word. -/
def isWord (c : Char) : Bool :=
  if c.toNat < 128 then c.isAlphanum || c == '_'
  else
    (alphabetic.contains c.toNat || mark.contains c.toNat || decimalDigit.contains c.toNat ||
      connector.contains c.toNat || joinControl.contains c.toNat) && !newInWords.contains c.toNat

/-- The characters of a text without the blanks at its start. -/
def trimStart (cs : List Char) : List Char := cs.dropWhile isBlank

/-- The characters of a text without the blanks at either end. -/
def trimChars (cs : List Char) : List Char := (trimStart (trimStart cs).reverse).reverse

/-- A text without the blanks at either end. -/
def trim (s : String) : String := String.ofList (trimChars s.toList)

/-- Whether a text holds nothing but blanks. -/
def isBlankText (s : String) : Bool := s.toList.all isBlank

end Lineage.Text
