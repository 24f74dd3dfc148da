import Lineage.Snapshot
import Lineage.Source.Keyword
import Lineage.Text.CharClass

/-!
# Feeds

A feed is where catalogs come from. Everything it delivers is limited to one owner or, when no
owner is asked for, to the owners that are not part of the database system. A dependency belongs
to the owner of the object that depends, whatever it depends on. A feed stores a snapshot, or
simulates a server that may be out of reach.
-/

namespace Lineage

/-- Why a feed does not deliver. -/
inductive FetchError where
  /-- What was delivered cannot be used. -/
  | invalidResponse (detail : String)
  /-- The server is out of reach. -/
  | network (detail : String)
deriving DecidableEq

namespace FetchError

/-- The text of an error. -/
def message : FetchError → String
  | .invalidResponse detail => "Invalid response: " ++ detail
  | .network detail => "Network error: " ++ detail

end FetchError

/-- Whether an owner is one of those asked for. -/
def isWanted (wanted : Option String) (owner : String) : Bool :=
  match wanted with
  | some name => Text.eqIgnoringAsciiCase name owner
  | none => !Source.isSystemSchema owner

/-- The owner in the key of a source text: what comes before the first dot. A key without a dot has
the empty owner. -/
def Sources.ownerOf (key : String) : String :=
  match key.toList.span (· != '.') with
  | (owner, _ :: _) => String.ofList owner
  | (_, []) => ""

/-- The parts of a snapshot that belong to the owners asked for. -/
def Snapshot.forOwner (s : Snapshot) (wanted : Option String) : Snapshot where
  dependencies := s.dependencies.filter (isWanted wanted ·.source.owner)
  schema := s.schema.filterOwners (isWanted wanted)
  sources := s.sources.filterKeys (isWanted wanted <| Sources.ownerOf ·)

/-- Whether an object is named by blanks alone, in part or in full. -/
def ObjectRef.isBlank (r : ObjectRef) : Bool :=
  Text.isBlankText r.owner || Text.isBlankText r.name

/-- The error of the first dependency that has an end without a name. -/
def Snapshot.blankEnd? (s : Snapshot) : Option FetchError :=
  (s.dependencies.find? fun d => d.source.isBlank || d.target.isBlank).map fun d =>
    .invalidResponse <|
      "dependency edge with a blank endpoint: '" ++ d.source.key.text ++ "' -> '" ++
        d.target.key.text ++ "'"

/-- A feed. -/
inductive Feed where
  /-- A snapshot as it was stored. -/
  | stored (contents : Snapshot)
  /-- A server that delivers some contents, if it can be reached. -/
  | simulated (name : String) (reachable : Bool) (contents : Snapshot)

namespace Feed

/-- The name of a feed. -/
def name : Feed → String
  | .stored _ => "Snapshot"
  | .simulated name _ _ => name

/-- All that a feed holds. -/
def contents : Feed → Snapshot
  | .stored contents => contents
  | .simulated _ _ contents => contents

/-- A feed with other contents. -/
def withContents (f : Feed) (contents : Snapshot) : Feed :=
  match f with
  | .stored _ => .stored contents
  | .simulated name reachable _ => .simulated name reachable contents

/-- The error of a feed that is out of reach. -/
def unreachable? : Feed → Option FetchError
  | .simulated _ false _ => some (.network "Simulated connection failure")
  | _ => none

/-- What is wrong with a feed, if anything is. -/
def fault? : Feed → Option FetchError
  | .stored contents => contents.blankEnd?
  | f => f.unreachable?

/-- What a feed delivers for the owners asked for. -/
def fetch (f : Feed) (wanted : Option String) : Except FetchError Snapshot :=
  match f.unreachable? with
  | some e => .error e
  | none => .ok (f.contents.forOwner wanted)

end Feed

end Lineage
