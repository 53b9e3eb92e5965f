/-
# `CastGuard.FileSystem` — what is asked of a file system

The calls by which directories are searched and scripts are read and replaced.  They are an
interface, so that the same search and the same way of writing serve a disk that is a value, about
which things can be proved, and the disk of the machine.  Paths are seen from the working
directory.
-/
import CastGuard.Error

namespace CastGuard

/-- What a listing says of a name without following it. -/
inductive Kind where
  | directory
  | link
  | other
  deriving DecidableEq, Repr

structure Listed where
  name : String
  kind : Kind
  deriving DecidableEq, Repr

/-- The calls of a file system whose access rights are of type `ρ`. -/
structure FileSystem (m : Type → Type) (ρ : Type) where
  /-- whether a path leads to a directory, through links -/
  isDir : String → m Bool
  /-- whether a path leads to a file, through links -/
  isFile : String → m Bool
  /-- whether there is anything at a path, be it a link that leads nowhere -/
  isPresent : String → m Bool
  /-- the names in a directory, as far as they are texts -/
  list : String → m (Except IoError (List Listed))
  /-- the text of a file -/
  read : String → m (Except IoError String)
  /-- the absolute path of what a path leads to, free of links -/
  canonical : String → m (Except IoError String)
  rights : String → m (Except IoError ρ)
  setRights : String → ρ → m (Except IoError Unit)
  /-- makes or overwrites a file, through links -/
  write : String → String → m (Except IoError Unit)
  /-- moves a file or link into another's place -/
  rename : String → String → m (Except IoError Unit)
  /-- removes a file or link -/
  remove : String → m (Except IoError Unit)

end CastGuard
