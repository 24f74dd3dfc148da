import Lineage.File.Error

/-!
# Access to files

What a program may do with files, in any monad. The program is written against this record; a
directory in memory and the file system of the machine are two ways to fill it.
-/

namespace Lineage

/-- Ways to look at files and to write them, by path. -/
structure FileAccess (m : Type → Type) where
  /-- Whether there is a file or a directory. -/
  isThere : String → m Bool
  /-- The text of a file. -/
  read : String → m (Except FileError String)
  /-- Puts a text in place of what a file held; the file is made if there is none. -/
  write : String → String → m (Except FileError Unit)

end Lineage
