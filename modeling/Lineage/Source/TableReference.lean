import Lineage.Source.Comment
import Lineage.Source.Keyword
import Lineage.Source.Lexeme
import Lineage.Text.Name

/-!
# References to tables

The tables that statements read and write, by the words in front of the name: `FROM` and `JOIN` for
reading, `INSERT INTO`, `UPDATE`, `DELETE` with or without `FROM`, and `MERGE INTO`. The table of a
`DELETE FROM` is also read. A keyword where a name is expected is no table, and the words
`FOR UPDATE` lock rows without naming one.

Every list holds each table once, in the spelling found first.
-/

namespace Lineage.Source

/-- The tables of a text without comments, by what is done to them. -/
structure TableReferences where
  reads : List String
  inserts : List String
  updates : List String
  deletes : List String
  merges : List String

/-- Recognises a phrase and a qualified name after it. The result is the name, or none if it is a
keyword or the characters before the phrase are not accepted. -/
def tableAfter (accepts : List Char → Bool) (phrase : List (List Char)) :
    Text.Recogniser (Option String) := fun before text =>
  if atWordStart before then do
    let length ← phrase? phrase text
    let name ← qualifiedName? (text.drop length)
    let table := String.ofList name
    let found := if isSqlKeyword table || !accepts before then none else some table
    some (found, length + name.length)
  else none

/-- The tables that a recogniser finds. -/
def tablesBy (recognise : Text.Recogniser (Option String)) (text : List Char) : List String :=
  (Text.scan recognise text).filterMap id

/-- Accepts every context. -/
def anywhere (_ : List Char) : Bool := true

/-- Rejects the context of `FOR UPDATE`. -/
def notAfterFor (before : List Char) : Bool :=
  (previousWord before).map Char.toUpper != "FOR".toList

/-- `FROM` and a table. -/
def fromTable : Text.Recogniser (Option String) := tableAfter anywhere ["FROM".toList]

/-- `JOIN` and a table. -/
def joinTable : Text.Recogniser (Option String) := tableAfter anywhere ["JOIN".toList]

/-- `INSERT INTO` and a table. -/
def insertTable : Text.Recogniser (Option String) :=
  tableAfter anywhere ["INSERT".toList, "INTO".toList]

/-- `UPDATE` and a table, but not `FOR UPDATE`. -/
def updateTable : Text.Recogniser (Option String) := tableAfter notAfterFor ["UPDATE".toList]

/-- `DELETE FROM` or `DELETE` and a table. -/
def deleteTable : Text.Recogniser (Option String) := fun before text =>
  (tableAfter anywhere ["DELETE".toList, "FROM".toList] before text).or
    (tableAfter anywhere ["DELETE".toList] before text)

/-- `MERGE INTO` and a table. -/
def mergeTable : Text.Recogniser (Option String) :=
  tableAfter anywhere ["MERGE".toList, "INTO".toList]

namespace TableReferences

/-- The tables of a text without comments. -/
def of (text : List Char) : TableReferences where
  reads := Text.distinctNames (tablesBy fromTable text ++ tablesBy joinTable text)
  inserts := Text.distinctNames (tablesBy insertTable text)
  updates := Text.distinctNames (tablesBy updateTable text)
  deletes := Text.distinctNames (tablesBy deleteTable text)
  merges := Text.distinctNames (tablesBy mergeTable text)

/-- The tables of all lists, each once. -/
def all (t : TableReferences) : List String :=
  Text.distinctNames (t.reads ++ t.inserts ++ t.updates ++ t.deletes ++ t.merges)

/-- Whether a name is in one of the lists, up to upper case. -/
def contains (t : TableReferences) (name : String) : Bool :=
  Text.hasName t.reads name || Text.hasName t.inserts name || Text.hasName t.updates name ||
    Text.hasName t.deletes name || Text.hasName t.merges name

end TableReferences

end Lineage.Source
