import Lineage.Text.Name

/-!
# Allowlists

Rules that exempt objects from findings. A rule is the name of an object, compared ignoring ASCII
case, or a pattern with one wildcard: the first `*` stands for any text, and what comes before and
after it must stand at the start and at the end of the object's name, without overlap, in upper
case. The pattern `**` stands for any text too; otherwise a further `*` is an ordinary character.
-/

namespace Lineage

/-- Objects that are exempt from findings, by pattern. -/
structure Allowlist where
  /-- Objects that no finding is issued for. -/
  skipObjects : List String
  /-- Objects whose dynamic statements are expected. -/
  allowDynamicSql : List String
deriving DecidableEq

namespace Allowlist

/-- Whether a text matches a pattern; both are in upper case. -/
def globMatches (pattern text : List Char) : Bool :=
  if pattern = ['*'] ∨ pattern = ['*', '*'] then true
  else
    match pattern.span (· != '*') with
    | (start, _ :: stop) =>
      start.length + stop.length ≤ text.length && start.isPrefixOf text && stop.isSuffixOf text
    | (_, []) => pattern == text

/-- Whether a rule matches the name of an object. -/
def ruleMatches (object rule : String) : Bool :=
  if rule.toList.contains '*' then
    globMatches (Text.upcaseChars rule.toList) (Text.upcaseChars object.toList)
  else Text.eqIgnoringAsciiCase rule object

/-- The allowlist without rules. -/
def empty : Allowlist := ⟨[], []⟩

/-- Whether no finding is issued for an object. -/
def skips (a : Allowlist) (object : String) : Bool := a.skipObjects.any (ruleMatches object)

/-- Whether dynamic statements are expected in an object. -/
def allowsDynamicSql (a : Allowlist) (object : String) : Bool :=
  a.allowDynamicSql.any (ruleMatches object)

end Allowlist

end Lineage
