/-!
# Paths

Paths as texts, their components set apart by slashes. They are joined and cut without being looked
up, so what a path means is left to the file system; repeated slashes and components `.` are kept
where they do not stand at the cut.
-/

namespace Lineage.Path

/-- A path relative to a directory; an absolute path is not changed, and the empty directory is the
current one. -/
def join (directory path : String) : String :=
  if path.startsWith "/" || directory.isEmpty then path
  else if directory.endsWith "/" then directory ++ path
  else directory ++ "/" ++ path

/-- Takes slashes and components `.` from the end of a path, which is given from its end. What is
left is never empty if the path is not. -/
def cutEnd : List Char → List Char
  | '/' :: c :: rest => cutEnd (c :: rest)
  | '.' :: '/' :: rest => cutEnd ('/' :: rest)
  | path => path

/-- Takes slashes and components `.` from the start of a path. -/
def cutStart : List Char → List Char
  | ['.'] => []
  | '.' :: '/' :: rest => cutStart rest
  | '/' :: rest => cutStart rest
  | path => path

/-- A relative path without slashes and components `.` at its two ends; an absolute path is not
changed. -/
def trim (path : String) : String :=
  if path.startsWith "/" then path
  else String.ofList (cutEnd (cutStart path.toList).reverse).reverse

/-- The directory of a path; the empty text for a path of one component. -/
def parent (path : String) : String :=
  let withoutLast := (cutEnd path.toList.reverse).dropWhile (· != '/')
  String.ofList (cutEnd withoutLast).reverse

end Lineage.Path
