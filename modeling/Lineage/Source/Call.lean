import Lineage.Source.TableReference

/-!
# Calls

The packages, procedures and functions that a source text calls.

A *package call* is `package.member` before an opening parenthesis or a semicolon. A *procedure
call* is a name, qualified or not, before an opening parenthesis. A *function call* is such a name
right after `:=` or an opening parenthesis; since the parenthesis after the name may be the one
before a further call, the search goes on from it. What comes with the database is no call of the
user, and what the text names as a table is no call at all.
-/

namespace Lineage.Source

/-- Words before the name that a declaration declares. -/
def declarationHeaders : List (List Char) :=
  ["PROCEDURE".toList, "FUNCTION".toList, "PACKAGE".toList, "BODY".toList, "TRIGGER".toList,
    "VIEW".toList]

/-- Whether what follows the characters `before` is declared and not called. -/
def isDeclared (before : List Char) : Bool :=
  declarationHeaders.contains ((previousWord before).map Char.toUpper)

/-- Whether a word is a pseudo-column of a sequence. -/
def isSequenceColumn (word : List Char) : Bool :=
  word.map Char.toUpper == "NEXTVAL".toList || word.map Char.toUpper == "CURRVAL".toList

/-- Whether a name before a parenthesis may be a procedure or function of the user. -/
def isCallable (name : String) : Bool := !isSqlKeyword name && !isBuiltInFunction name

/-- Whether `package.member`, with the characters `before` it, calls a package of the user. A colon
before it makes it a bind variable. -/
def isPackageCall (tables : TableReferences) (before package member : List Char) : Bool :=
  let name := String.ofList package
  before.head? != some ':' && !isDeclared before &&
    !isBuiltInPackage name && !isSqlKeyword name && !isSystemSchema name &&
    !isSequenceColumn member && !tables.contains (String.ofList (package ++ '.' :: member))

/-- Recognises `package.member` before an opening parenthesis or a semicolon. The result is the
package, or none if this is no call of a user's package. -/
def packageCall (tables : TableReferences) : Text.Recogniser (Option String) :=
  fun before text =>
    if atWordStart before then do
      let package ← name? text
      match text.drop package.length with
      | '.' :: rest => do
        let member ← name? rest
        let rest := rest.drop member.length
        match rest.drop (gap rest) with
        | mark :: _ =>
          if mark == '(' || mark == ';' then
            let found :=
              if isPackageCall tables before package member then some (String.ofList package)
              else none
            some (found, package.length + 1 + member.length + gap rest + 1)
          else none
        | [] => none
      | _ => none
    else none

/-- The number of characters up to and with the opening parenthesis after a qualified name, and the
name. -/
def nameBeforeParen? (text : List Char) : Option (List Char × Nat) := do
  let name ← qualifiedName? text
  let rest := text.drop name.length
  match rest.drop (gap rest) with
  | '(' :: _ => some (name, name.length + gap rest + 1)
  | _ => none

/-- Recognises a name before an opening parenthesis. The result is the name, or none if a dot comes
before it or it is no call of a user's procedure. -/
def procedureCall (tables : TableReferences) : Text.Recogniser (Option String) :=
  fun before text =>
    if atWordStart before then
      (nameBeforeParen? text).map fun (name, length) =>
        let call := String.ofList name
        let isCall := before.head? != some '.' && isCallable call && !tables.contains call
        (if isCall then some call else none, length)
    else none

/-- The number of characters that may come before a function call: `:=` or an opening
parenthesis. -/
def callOpening? : List Char → Option Nat
  | ':' :: '=' :: _ => some 2
  | '(' :: _ => some 1
  | _ => none

/-- Recognises a name between `:=` or an opening parenthesis and another opening parenthesis, which
is not passed. The result is the name, or none if it is no call of a user's function. -/
def functionCall : Text.Recogniser (Option String) := fun _ text => do
  let opening ← callOpening? text
  let rest := text.drop opening
  let (name, length) ← nameBeforeParen? (rest.drop (gap rest))
  let call := String.ofList name
  some (if isCallable call then some call else none, opening + gap rest + length - 1)

/-- Recognises `EXECUTE IMMEDIATE` and a member of `DBMS_SQL`. -/
def dynamicStatement : Text.Recogniser Unit := fun before text =>
  if atWordStart before then
    match phrase? ["EXECUTE".toList] text with
    | some length =>
      let keyword := "IMMEDIATE".toList
      let rest := text.drop length
      if startsWithKeyword keyword rest && atWordEnd (rest.drop keyword.length) then
        some ((), length + keyword.length)
      else none
    | none =>
      let keyword := "DBMS_SQL".toList
      if startsWithKeyword keyword text && (text.drop keyword.length).head? == some '.' then
        some ((), keyword.length + 1)
      else none
  else none

/-- The calls that a recogniser finds, each once. -/
def callsBy (recognise : Text.Recogniser (Option String)) (text : List Char) : List String :=
  Text.distinctNames ((Text.scan recognise text).filterMap id)

end Lineage.Source
