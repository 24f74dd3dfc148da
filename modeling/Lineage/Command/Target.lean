import Lineage.Dictionary
import Lineage.Snapshot
import Lineage.Text.CharClass

/-!
# Targets of commands

Which object a user means by a reference, and which program units a snapshot offers for comparison.
A reference with a dot names its owner; one without has the owner that is assumed.
-/

namespace Lineage

/-- Why a reference names no object. -/
inductive ReferenceError where
  | empty
  /-- There is no owner, and none is assumed. -/
  | unqualified (reference : String)
deriving DecidableEq

namespace ReferenceError

/-- The text of an error. The settings are kept in the file `settingsFile`. -/
def message (settingsFile : String) : ReferenceError → String
  | .empty => "Object name must not be empty"
  | .unqualified reference =>
    "'" ++ reference ++ "' is not qualified. " ++
      "Use OWNER.NAME, pass --owner or set default_owner in " ++ settingsFile

end ReferenceError

/-- The owner and name that a reference stands for. Blanks around it do not count. -/
def qualify (reference : String) (owner : Option String) :
    Except ReferenceError (String × String) :=
  let reference := Text.trim reference
  if reference.isEmpty then .error .empty
  else if reference.toList.contains '.' then .ok (Text.splitQualified reference "")
  else
    match owner with
    | some owner => .ok (Text.splitQualified reference owner)
    | none => .error (.unqualified reference)

/-- Whether an object can be compared with its source text. -/
def ObjectKind.isComparable (kind : ObjectKind) : Bool := kind = .procedure || kind = .function

/-- The program units of a snapshot, each once and in order: those that have a source text, and the
procedures and functions that depend on something. -/
def Snapshot.programUnits (s : Snapshot) : List String :=
  let withSource := s.sources.keys.map Text.upcase
  let depending := (s.dependencies.filter (·.source.kind.isComparable)).map (·.source.key.text)
  (Dictionary.ofList ((withSource ++ depending).map (·, ()))).keys

end Lineage
