/-!
# File errors

Why a file cannot be read or written. Errors of the operating system have its wording and its
number; the others are about what a name or a file holds.
-/

namespace Lineage

/-- Why a file cannot be read or written. -/
inductive FileError where
  | notFound
  | denied
  | notDirectory
  | isDirectory
  | nameTooLong
  /-- The file does not hold text. -/
  | notText
  /-- The path holds the character of code zero. -/
  | nulInPath
  /-- Any other error, by its text. -/
  | other (text : String)
deriving DecidableEq

namespace FileError

/-- The wording of an error of the operating system, with its number. -/
def ofSystem (wording : String) (code : Nat) : String :=
  wording ++ " (os error " ++ toString code ++ ")"

/-- The text of an error. -/
def text : FileError → String
  | .notFound => ofSystem "No such file or directory" 2
  | .denied => ofSystem "Permission denied" 13
  | .notDirectory => ofSystem "Not a directory" 20
  | .isDirectory => ofSystem "Is a directory" 21
  | .nameTooLong => ofSystem "File name too long" 36
  | .notText => "stream did not contain valid UTF-8"
  | .nulInPath => "file name contained an unexpected NUL byte"
  | .other text => text

end FileError

end Lineage
