import Lineage.Distinct
import Lineage.Text.Uppercase

/-!
# Comparing names

Names are compared in two ways. *Ignoring ASCII case* equates the letters `A`–`Z` with `a`–`z` and
nothing else; schema look-ups use it. *Up to upper case* equates two texts whose upper case is the
same; lists of names found in a source text are kept free of repeats in that sense.

A name may be qualified as `OWNER.NAME`. Qualifying a name with an empty owner leaves it bare.
-/

namespace Lineage.Text

/-- The characters of a text with the ASCII letters in lower case. -/
def asciiFolded (s : String) : List Char := s.toList.map Char.toLower

/-- Whether two texts differ at most in the case of ASCII letters. -/
def eqIgnoringAsciiCase (a b : String) : Bool := asciiFolded a == asciiFolded b

/-- Whether two texts have the same upper case. -/
def sameName (a b : String) : Bool := upcase a == upcase b

/-- Whether a name occurs in a list, up to upper case. -/
def hasName (names : List String) (name : String) : Bool := names.any (sameName · name)

/-- The first spelling of each name, in order. -/
def distinctNames (names : List String) : List String := distinctBy upcase names

/-- `owner.name`, or only the name when the owner is empty. -/
def qualified (owner name : String) : String :=
  if owner.isEmpty then name else owner ++ "." ++ name

/-- The owner and the name in a reference: the texts before the first dot and between the first
and the second. A reference without a dot takes the default owner. -/
def splitQualified (reference defaultOwner : String) : String × String :=
  match reference.toList.span (· != '.') with
  | (_, []) => (defaultOwner, reference)
  | (owner, _ :: rest) => (String.ofList owner, String.ofList (rest.takeWhile (· != '.')))

theorem eqIgnoringAsciiCase_iff {a b : String} :
    eqIgnoringAsciiCase a b = true ↔ asciiFolded a = asciiFolded b := by
  simp [eqIgnoringAsciiCase]

theorem sameName_iff {a b : String} : sameName a b = true ↔ upcase a = upcase b := by
  simp [sameName]

end Lineage.Text
