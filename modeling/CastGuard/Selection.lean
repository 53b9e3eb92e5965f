/-
# `CastGuard.Selection` — which scripts are looked at

A selection names the directories that are scanned and what is left out of them: paths that
contain one of some texts, whatever the case of their letters, and everything below directories of
certain names.
-/
import CastGuard.ScriptPath
import CastGuard.Text.Lowercase

namespace CastGuard

open CastGuard.Text

def scriptExtension : String := "gd"

/-- The directories that are scanned and what is left out. -/
structure Selection where
  roots : List String
  excludedTexts : List String
  excludedDirs : List String
  deriving DecidableEq, Repr

namespace Selection

/-- The selection of a project that says nothing about it. -/
def standard : Selection := ⟨["core", "scenes", "addons/sparkling_editor"], ["test"], ["gdUnit4"]⟩

/-- A root without the slashes at its ends. -/
def trimRoot (root : String) : String :=
  String.ofList (((root.toList.dropWhile (· == '/')).reverse.dropWhile (· == '/')).reverse)

/-- Backslashes count as slashes. -/
def slashed (cs : List Char) : List Char := cs.map fun c => if c = '\\' then '/' else c

def excludesText (s : Selection) (path : String) : Bool :=
  s.excludedTexts.any fun t => occursIn (lower t.toList) (lower (slashed path.toList))

def excludesDir (s : Selection) (path : String) : Bool :=
  (ScriptPath.directories path).any fun d => d ∈ s.excludedDirs

def excludes (s : Selection) (path : String) : Bool := s.excludesText path || s.excludesDir path

/-- Whether a path is that of a script below one of the roots. -/
def covers (s : Selection) (path : String) : Bool :=
  ScriptPath.extension? path = some scriptExtension
    && s.roots.any fun root => ScriptPath.isBelow (trimRoot root) path

/-- Whether the script at a path is looked at. -/
def selects (s : Selection) (path : String) : Bool := s.covers path && !s.excludes path

end Selection

end CastGuard
