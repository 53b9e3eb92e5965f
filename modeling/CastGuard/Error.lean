/-
# `CastGuard.Error` — what can stop a run

A run stops at the first thing that goes wrong.  Either its settings are unusable, which shows
before any script is read, or a script cannot be listed, read or written.  A store reports its
failures in its own words and may wrap them in remarks; the cause of a wrapped failure is what
counts, and only a failure without a known cause is passed on by its outermost words.
-/
import CastGuard.Glob.Pattern
import CastGuard.Style
import CastGuard.Text.Printable

namespace CastGuard

open CastGuard.Text

/-- Why a file could not be used. -/
inductive IoError where
  | missing
  | notDirectory
  | isDirectory
  | tooManyLinks
  | nameTooLong
  /-- a path holds the character that ends paths -/
  | nulInName
  | notText
  /-- a store in memory has no such path -/
  | absent
  /-- a link leads to a path that is no text; the path is given as far as it can be shown -/
  | unreadableTarget (shown : String)
  | other (words : String)
  deriving DecidableEq, Repr

def IoError.message : IoError → String
  | .missing => "No such file or directory (os error 2)"
  | .notDirectory => "Not a directory (os error 20)"
  | .isDirectory => "Is a directory (os error 21)"
  | .tooManyLinks => "Too many levels of symbolic links (os error 40)"
  | .nameTooLong => "File name too long (os error 36)"
  | .nulInName => "file name contained an unexpected NUL byte"
  | .notText => "stream did not contain valid UTF-8"
  | .absent => "no such file"
  | .unreadableTarget shown => "symlink target " ++ shown ++ " is not UTF-8"
  | .other words => words

/-- What stopped a run. -/
inductive RunError where
  | style (e : StyleError)
  | scanRoot (dir : String) (e : Glob.PatternError)
  | io (path : String) (e : IoError)
  | runtime (words : String)
  deriving DecidableEq, Repr

namespace RunError

def message : RunError → String
  | .style e => "invalid rewrite config: " ++ e.message
  | .scanRoot dir e => "invalid scan root " ++ quoted dir ++ ": " ++ e.message
  | .io path e => "i/o error at " ++ path ++ ": " ++ e.message
  | .runtime words => "runtime error: " ++ words

/-- Whether the settings are at fault. -/
def isSetup : RunError → Bool
  | .style _ => true
  | .scanRoot _ _ => true
  | _ => false

def exitCode (_ : RunError) : Nat := 1

end RunError

/-- How a store reports a failure. -/
inductive StoreError where
  | known (e : RunError)
  | plain (words : String)
  | within (remark : String) (e : StoreError)
  deriving DecidableEq, Repr

namespace StoreError

/-- The known cause of a failure, through any remarks. -/
def cause? : StoreError → Option RunError
  | .known e => some e
  | .plain _ => none
  | .within _ e => e.cause?

/-- The outermost words of a failure. -/
def words : StoreError → String
  | .known e => e.message
  | .plain words => words
  | .within remark _ => remark

/-- What a run makes of a failure. -/
def toRunError (e : StoreError) : RunError := e.cause?.getD (.runtime e.words)

end StoreError

end CastGuard
