import Lineage.Toml.Scalar
import Lineage.Toml.Text

/-!
# TOML documents

A document is a list of lines, each of which puts something into the tables read so far: a key with
a value into the current table, or a header, which opens another table. A table may be defined
once. What counts as a definition depends on how the table came about, so a table under
construction records that: a header defines its table, while the tables on the way to it are
merely *implicit* and may still get a header; a dotted key makes *dotted* tables, which may get
further dotted keys but no header. A path that comes to an array of tables goes on in the latest
of them.
-/

namespace Lineage.Toml

/-- How a table came about. -/
inductive Origin where
  /-- By a header of its own, or as the document itself. -/
  | defined
  /-- As a table on the way to one with a header. -/
  | implicit
  /-- By a dotted key. -/
  | dotted
deriving DecidableEq

/-- What stands under a key of a table under construction. -/
inductive Item where
  /-- A value, which nothing can be added to. -/
  | value (v : Value)
  /-- A table. -/
  | table (origin : Origin) (entries : List (String × Item))
  /-- An array of tables, latest first; only the latest can be added to. -/
  | tables (latest : List (String × Item)) (others : List (List (String × Item)))

/-- The contents of a table under construction. -/
abbrev Entries := List (String × Item)

namespace Entries

/-- The table with an item under a key, in place of what was there. -/
def put (key : String) (item : Item) : Entries → Entries
  | [] => [(key, item)]
  | (other, kept) :: rest =>
    if other == key then (key, item) :: rest else (other, kept) :: put key item rest

/-- Changes the table at the end of a path by a function that is also told its origin. Tables that
are missing on the way are made with the origin `fresh`. A path of dotted keys must not enter a
table that was defined, unless it is the latest of an array. -/
def update (fresh : Origin) (change : Origin → Entries → Option Entries) :
    List String → Origin → Entries → Option Entries
  | [], origin, entries => change origin entries
  | key :: path, _, entries =>
    match entries.lookup key with
    | none => do
      let below ← update fresh change path fresh []
      some (put key (.table fresh below) entries)
    | some (.table origin below) => do
      if fresh = .dotted ∧ origin = .defined then none
      let below ← update fresh change path origin below
      some (put key (.table origin below) entries)
    | some (.tables latest others) => do
      let latest ← update fresh change path .defined latest
      some (put key (.tables latest others) entries)
    | some (.value _) => none

/-- Puts a value under a key that is a path. Only a dotted table takes a value through a path, and
only another table takes one without. -/
def assign (path : List String) (key : String) (v : Value) (origin : Origin) (entries : Entries) :
    Option Entries :=
  let change (origin : Origin) (entries : Entries) : Option Entries :=
    if (origin == .dotted) == path.isEmpty || (entries.lookup key).isSome then none
    else some (put key (.value v) entries)
  update .dotted change path origin entries

/-- Opens the table under a key by a header. -/
def openTable (key : String) (_ : Origin) (entries : Entries) : Option Entries :=
  match entries.lookup key with
  | none => some (put key (.table .defined []) entries)
  | some (.table .implicit below) => some (put key (.table .defined below) entries)
  | _ => none

/-- Opens a further table of the array under a key by a header. -/
def openElement (key : String) (_ : Origin) (entries : Entries) : Option Entries :=
  match entries.lookup key with
  | none => some (put key (.tables [] []) entries)
  | some (.tables latest others) => some (put key (.tables [] (latest :: others)) entries)
  | _ => none

end Entries

mutual

/-- The value that an item has when the document ends. -/
def Item.toValue : Item → Value
  | .value v => v
  | .table _ entries => .table (entriesToValues entries)
  | .tables latest others =>
    .array (tablesToValues others [.table (entriesToValues latest)])

/-- The values of the items of a table. -/
def entriesToValues : List (String × Item) → List (String × Value)
  | [] => []
  | (key, item) :: rest => (key, item.toValue) :: entriesToValues rest

/-- The values of the tables of an array, latest first, before those in `later`. -/
def tablesToValues : List (List (String × Item)) → List Value → List Value
  | [], later => later
  | entries :: rest, later => tablesToValues rest (.table (entriesToValues entries) :: later)

end

/-! ## Values -/

/-- A key with an equals sign and a value, and the rest. -/
def pair (value : List Char → Option (Value × List Char)) (cs : List Char) :
    Option (List String × Value × List Char) := do
  let (key, rest) ← key? cs
  let rest ← expect? '=' rest
  let (v, rest) ← value (skipSpace rest)
  some (key, v, rest)

/-- The items of an array up to its end, after those in `found`, latest first, and the rest. -/
def arrayItems (value : List Char → Option (Value × List Char)) (found : List Value)
    (fuel : Nat) (cs : List Char) : Option (List Value × List Char) :=
  match fuel with
  | 0 => none
  | fuel + 1 => do
    match ← skipBlank cs with
    | ']' :: rest => some (found.reverse, rest)
    | cs =>
      let (v, rest) ← value cs
      match ← skipBlank rest with
      | ',' :: rest => arrayItems value (v :: found) fuel rest
      | ']' :: rest => some ((v :: found).reverse, rest)
      | _ => none

/-- The entries of an inline table up to its end, after those in `found`, and the rest. -/
def inlineEntries (value : List Char → Option (Value × List Char)) (found : Entries)
    (fuel : Nat) (cs : List Char) : Option (Entries × List Char) :=
  match fuel with
  | 0 => none
  | fuel + 1 => do
    let (key, v, rest) ← pair value cs
    let found ← found.assign key.dropLast (key.getLastD "") v .defined
    match skipSpace rest with
    | ',' :: rest => inlineEntries value found fuel rest
    | '\x7d' :: rest => some (found, rest)
    | _ => none

/-- A value with at most `depth` arrays and inline tables around another, and the rest. -/
def value? (depth : Nat) (cs : List Char) : Option (Value × List Char) :=
  match depth, cs with
  | 0, '[' :: _ => none
  | 0, '\x7b' :: _ => none
  | depth + 1, '[' :: rest => do
    let (items, rest) ← arrayItems (value? depth) [] rest.length rest
    some (.array items, rest)
  | depth + 1, '\x7b' :: rest =>
    match skipSpace rest with
    | '\x7d' :: rest => some (.table [], rest)
    | rest => do
      let (entries, rest) ← inlineEntries (value? depth) [] rest.length rest
      some (.table (entriesToValues entries), rest)
  | _, cs =>
    match cs.head? with
    | some '"' => (text? cs).map fun (s, rest) => (.text (String.ofList s), rest)
    | some '\'' => (text? cs).map fun (s, rest) => (.text (String.ofList s), rest)
    | _ => scalarValue? cs

/-- The most arrays and inline tables that may stand around a value. -/
def maxDepth : Nat := 79

/-! ## Lines -/

/-- A document under construction: its tables and the path of the current one. -/
structure Draft where
  entries : Entries
  current : List String

/-- The rest after the end of a line, which may hold a comment. -/
def endLine? (cs : List Char) : Option (List Char) := do
  let rest ← skipComment (skipSpace cs)
  if rest.isEmpty then some [] else newline? rest

/-- Takes one line that is not blank. -/
def Draft.line? (d : Draft) (cs : List Char) : Option (Draft × List Char) :=
  match cs with
  | '[' :: '[' :: rest => do
    let (key, rest) ← key? rest
    let rest ← endLine? (← expect? ']' (← expect? ']' rest))
    let open? := Entries.openElement (key.getLastD "")
    let entries ← d.entries.update .implicit open? key.dropLast .defined
    some (⟨entries, key⟩, rest)
  | '[' :: rest => do
    let (key, rest) ← key? rest
    let rest ← endLine? (← expect? ']' rest)
    let open? := Entries.openTable (key.getLastD "")
    let entries ← d.entries.update .implicit open? key.dropLast .defined
    some (⟨entries, key⟩, rest)
  | _ => do
    let (key, v, rest) ← pair (value? maxDepth) cs
    let rest ← endLine? rest
    let change := Entries.assign key.dropLast (key.getLastD "") v
    let entries ← d.entries.update .implicit change d.current .defined
    some (⟨entries, d.current⟩, rest)

/-- Takes all lines, of which there are fewer than `fuel`. -/
def Draft.lines? (fuel : Nat) (d : Draft) (cs : List Char) : Option Draft :=
  match fuel with
  | 0 => none
  | fuel + 1 => do
    match ← skipBlank cs with
    | [] => some d
    | cs =>
      let (d, rest) ← d.line? cs
      Draft.lines? fuel d rest

/-- The table that a document is; none if the text is not TOML. A byte order mark may come first. -/
def parse (text : String) : Option (List (String × Value)) :=
  let cs :=
    match text.toList with
    | '\uFEFF' :: rest => rest
    | cs => cs
  (Draft.lines? (cs.length + 1) ⟨[], []⟩ cs).map (entriesToValues ·.entries)

end Lineage.Toml
