import Lineage.Schema.Basic
import Lineage.Source.Comment
import Lineage.Source.Keyword
import Lineage.Source.Lexeme

/-!
# Package specifications

What a package offers, read from the text of its specification: procedures and functions with their
arguments, variables, and types.

A parameter list is what stands between an opening parenthesis and the one that balances it; a list
that is never closed goes on to the end of the text. It is split at the commas outside inner
parentheses, and every part that has the form of an argument is one. A function needs a return
type. A variable is declared by a line that starts with its name and its type and goes on with
`:=`, a semicolon or `DEFAULT`.
-/

namespace Lineage.Source

/-- The word at the front of a text: a run of word characters, not empty. -/
def word? (text : List Char) : Option (List Char) :=
  match text.takeWhile Text.isWord with
  | [] => none
  | word => some word

/-- The text after a gap. -/
def afterGap (text : List Char) : List Char := text.drop (gap text)

/-- The words after a keyword and a gap at the front of a text, and the number of characters of
all three. -/
def wordAfter? (keyword : List Char) (text : List Char) : Option (List Char × Nat) := do
  let length ← phrase? [keyword] text
  let word ← word? (text.drop length)
  some (word, length + word.length)

/-! ## Parameter lists -/

/-- Goes on to the parenthesis that closes a list with `depth` parentheses still open inside it.
The result is the text before it, after `found`, latest first, and the text after it; without one,
the list takes all. -/
def closeList (depth : Nat) (found : List Char) : List Char → List Char × List Char
  | [] => (found.reverse, [])
  | c :: rest =>
    if c == '(' then closeList (depth + 1) (c :: found) rest
    else if c == ')' then
      match depth with
      | 0 => (found.reverse, rest)
      | depth + 1 => closeList depth (c :: found) rest
    else closeList depth (c :: found) rest

/-- The parameter list after a gap at the front of a text, and the text after it. -/
def parameterList? (text : List Char) : Option (List Char × List Char) :=
  match afterGap text with
  | '(' :: rest => some (closeList 0 [] rest)
  | _ => none

/-- Splits a text at the commas with no parenthesis open since the last split; `part` is the part
in progress, latest first. A closing parenthesis too many does not count. -/
def splitFrom (depth : Nat) (part : List Char) : List Char → List (List Char)
  | [] => [part.reverse]
  | c :: rest =>
    if c == ',' && depth == 0 then part.reverse :: splitFrom 0 [] rest
    else if c == '(' then splitFrom (depth + 1) (c :: part) rest
    else if c == ')' then splitFrom (depth - 1) (c :: part) rest
    else splitFrom depth (c :: part) rest

/-- The parts of a parameter list between the commas outside inner parentheses. -/
def splitTopLevel (parameters : List Char) : List (List Char) := splitFrom 0 [] parameters

/-! ## Arguments -/

/-- A text in parentheses that is not empty and has no closing one, after a gap; with both
parentheses and the gap. -/
def parenthesized? (text : List Char) : Option (List Char) :=
  match afterGap text with
  | '(' :: rest =>
    match rest.span (· != ')') with
    | ([], _) => none
    | (_, []) => none
    | (body, _ :: _) => some (text.take (gap text) ++ '(' :: body ++ [')'])
  | _ => none

/-- A mark with a word right after it, at the front of a text; empty if there is none. -/
def markedWord (mark : Char) : List Char → List Char
  | [] => []
  | c :: text => if c == mark then ((word? text).map (c :: ·)).getD [] else []

/-- The name of a type at the front of a text: a word, a member after a dot, and a property after
a percent sign. -/
def typeName? (text : List Char) : Option (List Char) :=
  (word? text).map fun word =>
    let member := markedWord '.' (text.drop word.length)
    let property := markedWord '%' (text.drop (word.length + member.length))
    word ++ member ++ property

/-- A type at the front of a text: its name and, in parentheses, its size. -/
def dataType? (text : List Char) : Option (List Char) :=
  (typeName? text).map fun name => name ++ (parenthesized? (text.drop name.length)).getD []

/-- Whether a value goes in and whether it comes out. -/
structure Direction where
  isIn : Bool
  isOut : Bool

/-- The directions of an argument by the words that state them, in the order in which they are
tried. Without a word, a value goes in. -/
def directions : List (List (List Char) × Direction) :=
  [(["IN".toList, "OUT".toList], ⟨true, true⟩), (["IN".toList], ⟨true, false⟩),
    (["OUT".toList], ⟨false, true⟩), ([], ⟨true, false⟩)]

/-- The type at the front of a text, with or without `NOCOPY` before it. -/
def passedType? (text : List Char) : Option (List Char) :=
  ((phrase? ["NOCOPY".toList] text).bind fun length => dataType? (text.drop length)).or
    (dataType? text)

/-- The type of an argument and its direction, which is the first that leaves room for a type. -/
def mode? (text : List Char) : Option (List Char × Direction) :=
  directions.findSome? fun (words, direction) => do
    let length ← phrase? words text
    let type ← passedType? (text.drop length)
    some (type, direction)

/-- The name, type and direction of an argument. -/
def argument? (part : List Char) : Option (List Char × List Char × Direction) := do
  let name ← word? part
  let rest := part.drop name.length
  if gap rest = 0 then none
  else
    let (type, direction) ← mode? (afterGap rest)
    some (name, type, direction)

/-- The arguments in a parameter list, numbered from one. -/
def parseArguments (parameters : List Char) : List Argument :=
  let found := (splitTopLevel parameters).filterMap fun part => argument? (Text.trimChars part)
  found.zipIdx.map fun ((name, type, direction), i) => {
    name := String.ofList name
    dataType := String.ofList type
    ordinal := i + 1
    isIn := direction.isIn
    isOut := direction.isOut }

/-- An argument as it is declared: name, direction and type. -/
def formatArgument (a : Argument) : String :=
  let mode := if a.isOut then (if a.isIn then "IN OUT" else "OUT") else "IN"
  a.name ++ " " ++ mode ++ " " ++ a.dataType

/-- A list of arguments as it is declared. -/
def formatArguments (arguments : List Argument) : String :=
  ", ".intercalate (arguments.map formatArgument)

/-! ## Declarations -/

/-- Recognises a keyword and a name. The result is the name and the text after it. -/
def declared (keyword : List Char) : Text.Recogniser (List Char × List Char) :=
  fun before text =>
    if atWordStart before then
      (wordAfter? keyword text).map fun (name, length) => ((name, text.drop length), length)
    else none

/-- The parameters after a declared name, and the text after them. -/
def signature (rest : List Char) : List Argument × List Char :=
  match parameterList? rest with
  | some (parameters, rest) => (parseArguments parameters, rest)
  | none => ([], rest)

/-- The return type after a parameter list. -/
def returnType? (text : List Char) : Option (List Char) := do
  let rest := afterGap text
  let length ← phrase? ["RETURN".toList] rest
  typeName? (rest.drop length)

/-- Recognises the declaration of a type. The result is its name. -/
def declaredType : Text.Recogniser (List Char) := fun before text =>
  if atWordStart before then do
    let (name, length) ← wordAfter? "TYPE".toList text
    let rest := text.drop length
    if gap rest = 0 then none
    else
      let tail ← phrase? ["IS".toList] (afterGap rest)
      some (name, length + gap rest + tail)
  else none

/-- The number of characters of `:=`, a semicolon or `DEFAULT` after a gap. -/
def declarationEnd? (text : List Char) : Option Nat :=
  match afterGap text with
  | ':' :: '=' :: _ => some (gap text + 2)
  | ';' :: _ => some (gap text + 1)
  | rest =>
    let keyword := "DEFAULT".toList
    if startsWithKeyword keyword rest && atWordEnd (rest.drop keyword.length) then
      some (gap text + keyword.length)
    else none

/-- The number of characters from the type of a variable to the end of its declaration. -/
def typeToEnd? (text : List Char) : Option Nat := do
  let word ← word? text
  let rest := text.drop word.length
  let size := (parenthesized? rest).getD []
  let tail ← declarationEnd? (rest.drop size.length)
  some (word.length + size.length + tail)

/-- The number of characters from the type of a variable to the end of its declaration, with or
without `CONSTANT` before the type. -/
def constantToEnd? (text : List Char) : Option Nat :=
  ((phrase? ["CONSTANT".toList] text).bind fun length =>
      (typeToEnd? (text.drop length)).map (length + ·)).or
    (typeToEnd? text)

/-- Whether a line starts after the characters `before`, the nearest first. -/
def atLineStart (before : List Char) : Bool :=
  match before with
  | [] => true
  | c :: _ => c == '\n'

/-- Recognises the declaration of a variable at the start of a line. The result is its name, or none
if it is a word that declares none. -/
def declaredVariable : Text.Recogniser (Option (List Char)) := fun before text =>
  if atLineStart before then do
    let indent := gap text
    let name ← word? (text.drop indent)
    let rest := text.drop (indent + name.length)
    if gap rest = 0 then none
    else
      let tail ← constantToEnd? (afterGap rest)
      let found := if isDeclarationKeyword (String.ofList name) then none else some name
      some (found, indent + name.length + gap rest + tail)
  else none

/-! ## Packages -/

/-- The text of a package's specification without comments; empty if there is none. -/
def specification (p : Package) : List Char :=
  withoutComments ((p.definition.map String.toList).getD [])

/-- The procedures that a package offers. -/
def procedures (p : Package) : List Procedure :=
  (Text.scan (declared "PROCEDURE".toList) (specification p)).map fun (name, rest) => {
    owner := p.owner
    name := String.ofList name
    sql := none
    package := some p.name
    arguments := (signature rest).1 }

/-- The functions that a package offers. -/
def functions (p : Package) : List Function :=
  (Text.scan (declared "FUNCTION".toList) (specification p)).filterMap fun (name, rest) =>
    let (arguments, rest) := signature rest
    (returnType? rest).map fun type => {
      owner := p.owner
      name := String.ofList name
      sql := none
      package := some p.name
      arguments
      returnType := some (String.ofList type) }

/-- The variables and constants that a package offers. -/
def variableNames (p : Package) : List String :=
  ((Text.scan declaredVariable (specification p)).filterMap id).map String.ofList

/-- The types that a package offers. -/
def typeNames (p : Package) : List String :=
  (Text.scan declaredType (specification p)).map String.ofList

end Lineage.Source
