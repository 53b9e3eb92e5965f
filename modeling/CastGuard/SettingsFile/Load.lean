/-
# `CastGuard.SettingsFile.Load` — the settings file of a project root

The file is looked for directly in the project root.  Without one the usual settings hold; one that
is there but cannot be used is an error.
-/
import CastGuard.FileSystem
import CastGuard.SettingsFile

namespace CastGuard.SettingsFile

/-- Why the settings of a project could not be had. -/
inductive LoadError where
  /-- the text is no valid settings file -/
  | invalid
  /-- the file cannot be read -/
  | unreadable (path : String)
  /-- the file is read and is no valid settings file -/
  | malformed (path : String)
  deriving DecidableEq, Repr

def LoadError.message : LoadError → String
  | .invalid => "invalid TOML"
  | .unreadable path => "read config file " ++ path
  | .malformed path => "parse config file " ++ path

def parse (text : String) : Except LoadError SettingsFile :=
  match parse? text with
  | some file => .ok file
  | none => .error .invalid

variable {m : Type → Type} [Monad m] {ρ : Type}

/-- The settings file of a project root, if there is one. -/
def find? (fs : FileSystem m ρ) (projectRoot : String) : m (Option String) := do
  let path := ScriptPath.join projectRoot fileName
  let isDir ← fs.isDir path
  let isFile ← fs.isFile path
  return if isDir || isFile then some path else none

def loadAt (fs : FileSystem m ρ) (path : String) : m (Except LoadError SettingsFile) := do
  match ← fs.read path with
  | .error _ => return .error (.unreadable path)
  | .ok text =>
    match parse text with
    | .ok file => return .ok file
    | .error _ => return .error (.malformed path)

def load (fs : FileSystem m ρ) (projectRoot : String) : m (Except LoadError SettingsFile) := do
  match ← find? fs projectRoot with
  | none => return .ok standard
  | some path => loadAt fs path

end CastGuard.SettingsFile
