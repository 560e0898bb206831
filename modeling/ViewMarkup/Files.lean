import ViewMarkup.Text.Basic

/-!
# Files

What the command needs of a file system, as a class over a monad.  The command can then run over
real files or over a tree that is held in memory.

Paths are relative to a working directory unless they start with a slash.
-/

namespace ViewMarkup

/-- Why a file cannot be read or written, or a directory cannot be made. -/
inductive FileFault where
  | missing
  /-- Something on the way to the file is not a directory. -/
  | notDirectory
  | isDirectory
  /-- Something else stands where the directory should be. -/
  | occupied
  /-- The text holds half of a surrogate pair. -/
  | unencodable
  /-- The system refuses for another reason. -/
  | refused
  deriving DecidableEq

/-- Access to files. -/
class Files (m : Type → Type) where
  /-- The working directory, as an absolute path. -/
  workingDir : m Text
  isDir : (path : Text) → m Bool
  isFile : (path : Text) → m Bool
  read : (path : Text) → m (Except FileFault Text)
  /-- Replaces the content of a file, which is made if it is not there. -/
  write : (path content : Text) → m (Except FileFault Unit)
  /-- Makes a directory and those that it stands in, as far as they are not there. -/
  makeDir : (path : Text) → m (Except FileFault Unit)
  /-- The paths of everything below a directory, relative to it, in any order; there is nothing
  below what is not a directory. -/
  below : (dir : Text) → m (List Text)

end ViewMarkup
