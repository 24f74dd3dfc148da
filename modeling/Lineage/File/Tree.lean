import Lineage.File.Access

/-!
# File trees

A file system in memory: its files and its directories, each under the components of its path from
the root, and the place of the working directory, where relative paths start. A directory is also
there when it is on the way to something that is there. Paths are looked up one component after the
other, as an operating system does it: a component can only be looked up in a directory, `.` stays,
and `..` goes up, but not beyond the root. A path that ends with a slash is the path of a directory.
-/

namespace Lineage

/-- The files and directories of a file system, by the components of their paths. -/
structure FileTree where
  files : List (List String × ByteArray)
  /-- Directories that are there even if they are empty. -/
  directories : List (List String)
  /-- The working directory. -/
  home : List String

namespace FileTree

/-- The bytes of a file. -/
def file? (t : FileTree) (place : List String) : Option ByteArray := t.files.lookup place

/-- Whether a place is that of a directory. -/
def isDirectory (t : FileTree) (place : List String) : Bool :=
  place.isEmpty || (t.home :: t.directories).any place.isPrefixOf ||
    t.files.any fun f => place.length < f.1.length && place.isPrefixOf f.1

/-- The tree with a file in place of what was there. -/
def put (t : FileTree) (place : List String) (bytes : ByteArray) : FileTree :=
  { t with files := t.files.filter (·.1 ≠ place) ++ [(place, bytes)] }

/-- The tree with a file and the directories on the way to it; none if a directory is at the place,
or a file on the way. -/
def add? (t : FileTree) (place : List String) (bytes : ByteArray) : Option FileTree :=
  let isOnTheWay (f : List String × ByteArray) : Bool :=
    f.1.length < place.length && f.1.isPrefixOf place
  if t.isDirectory place || t.files.any isOnTheWay then none else some (t.put place bytes)

/-- The greatest number of bytes in a component of a path. -/
def maxComponent : Nat := 255

/-- The greatest number of bytes in a path. -/
def maxPath : Nat := 4095

/-- The error of looking something up at a place, if it is not that of a directory. -/
def lookUpError? (t : FileTree) (place : List String) : Option FileError :=
  if t.isDirectory place then none
  else if (t.file? place).isSome then some .notDirectory
  else some .notFound

/-- The place that components lead to from another. The last component need not be there. -/
def locate (t : FileTree) (place : List String) : List String → Except FileError (List String)
  | [] => .ok place
  | component :: rest =>
    match t.lookUpError? place with
    | some e => .error e
    | none =>
      if component.isEmpty || component == "." then t.locate place rest
      else if component == ".." then t.locate place.dropLast rest
      else if maxComponent < component.utf8ByteSize then .error .nameTooLong
      else t.locate (place ++ [component]) rest

/-- The components of a path, if a path can be like this. -/
def components (path : String) : Except FileError (List String) :=
  if path.toList.contains '\x00' then .error .nulInPath
  else if path.isEmpty then .error .notFound
  else if maxPath < path.utf8ByteSize then .error .nameTooLong
  else .ok (path.splitOn "/")

/-- The place where the lookup of a path starts. -/
def start (t : FileTree) (path : String) : List String :=
  if path.startsWith "/" then [] else t.home

/-- The place that a path leads to. -/
def placeOf (t : FileTree) (path : String) : Except FileError (List String) := do
  t.locate (t.start path) (← components path)

/-- Whether there is a file or a directory at a path. -/
def isThere (t : FileTree) (path : String) : Bool :=
  match t.placeOf path with
  | .ok place => t.isDirectory place || (t.file? place).isSome
  | .error _ => false

/-- The text of the file at a path. -/
def read (t : FileTree) (path : String) : Except FileError String := do
  let place ← t.placeOf path
  if t.isDirectory place then .error .isDirectory
  else
    match t.file? place with
    | none => .error .notFound
    | some bytes =>
      match String.fromUTF8? bytes with
      | some text => .ok text
      | none => .error .notText

/-- The tree with a text in the file at a path. The directory of the file has to be there. -/
def write (t : FileTree) (path text : String) : Except FileError FileTree := do
  let all ← components path
  let named := (all.reverse.dropWhile (·.isEmpty)).reverse
  let last := named.getLastD ""
  let place ← t.locate (t.start path) named.dropLast
  match t.lookUpError? place with
  | some e => .error e
  | none =>
    if named.length < all.length || last == "." || last == ".." then .error .isDirectory
    else if maxComponent < last.utf8ByteSize then .error .nameTooLong
    else
      let place := place ++ [last]
      if t.isDirectory place then .error .isDirectory else .ok (t.put place text.toUTF8)

/-- Access to the files of a tree that is carried along. -/
def access : FileAccess (StateM FileTree) where
  isThere path := return (← get).isThere path
  read path := return (← get).read path
  write path text := do
    match (← get).write path text with
    | .ok t => set t; return .ok ()
    | .error e => return .error e

end FileTree

end Lineage
