/-!
# Sets of code points

A set of code points kept as its boundaries: the first code point in the set, the first one after
it that is out, the next one that is in again, and so on, in increasing order. The tables of
character properties are such lists, and a look-up stops at the first boundary above the code
point.
-/

namespace Lineage.Text

/-- A set of code points, as an increasing list of boundaries. -/
structure Spans where
  bounds : List Nat

namespace Spans

/-- Whether `n` is in the set with these boundaries. -/
def containsFrom (n : Nat) : List Nat → Bool
  | [] => false
  | [first] => first ≤ n
  | first :: stop :: rest => if n < first then false else n < stop || containsFrom n rest

/-- Whether the code point `n` is in the set. -/
def contains (s : Spans) (n : Nat) : Bool := containsFrom n s.bounds

end Spans

end Lineage.Text
