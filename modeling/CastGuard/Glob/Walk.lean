/-
# `CastGuard.Glob.Walk` — the paths that match a pattern

A walk follows the components of a pattern from directory to directory.  A component without
wildcards is one step; one with wildcards tries every name; two stars try everything at any depth,
and what follows them is compared with names only.  Hidden files and links to directories are
nothing special.  A directory that cannot be listed ends the walk.

Paths come out as they were put together, so a dot or two dots in the pattern remain visible; only
a leading dot is dropped.  Their order is that of the walk: two dots, one dot, then names in order,
and a directory before what is below it.
-/
import CastGuard.FileSystem
import CastGuard.ScriptPath

namespace CastGuard.Glob

/-- A directory that could not be listed. -/
structure Unlisted where
  dir : String
  cause : IoError
  deriving DecidableEq, Repr

/-- Searches end at the first directory that cannot be listed. -/
abbrev Search (m : Type → Type) := ExceptT Unlisted m

variable {m : Type → Type} [Monad m] {ρ : Type}

def gather {m : Type → Type} [Monad m] {α β : Type} (f : α → m (List β)) : List α → m (List β)
  | [] => pure []
  | x :: xs => do
    let found ← f x
    let more ← gather f xs
    return found ++ more

/-- A path that a walk has come to, and whether it goes on from there. -/
structure Node where
  path : String
  isDir : Bool
  deriving DecidableEq, Repr

/-- A step from a directory to one of its names. -/
def step (dir name : String) : String :=
  if ScriptPath.same dir "." then name else ScriptPath.join dir name

def nodeAt (fs : FileSystem m ρ) (path : String) : Search m Node := do
  return ⟨path, ← fs.isDir path⟩

/-- The node of a listed name.  Only a link has to be looked up to tell whether it leads to a
directory. -/
def nodeOf (fs : FileSystem m ρ) (dir : String) (e : Listed) : Search m Node :=
  match e.kind with
  | .directory => pure ⟨step dir e.name, true⟩
  | .link => nodeAt fs (step dir e.name)
  | .other => pure ⟨step dir e.name, false⟩

def insertListed (e : Listed) : List Listed → List Listed
  | [] => [e]
  | f :: es => if f.name < e.name then f :: insertListed e es else e :: f :: es

def sortListed (es : List Listed) : List Listed := es.foldr insertListed []

/-- The names in a directory, in order; what is no directory has none. -/
def namesIn (fs : FileSystem m ρ) (dir : Node) : Search m (List Listed) := do
  if dir.isDir then
    match ← fs.list dir.path with
    | .error e => throw ⟨dir.path, e⟩
    | .ok entries => return sortListed entries
  else return []

/-- No path is longer than this many bytes, so none has more components. -/
def maxDepth : Nat := 4096

/-- Continues at everything below a directory whose name is wanted, down to a depth. -/
def below (fs : FileSystem m ρ) (wanted : String → Bool) (next : Node → Search m (List String)) :
    Nat → Node → Search m (List String)
  | 0, _ => pure []
  | depth + 1, dir => do
    gather (fun e => do
      let node ← nodeOf fs dir.path e
      let here ← if wanted e.name then next node else pure []
      let deeper ← below fs wanted next depth node
      return here ++ deeper) (← namesIn fs dir)

def Segment.matchesName : Segment → String → Bool
  | .literal s, name => s = name
  | .wildcard ts, name => Glob.matchesName ts name.toList
  | .descend, _ => false

/-- The names that a component with wildcards allows for the parent of a directory and for the
directory itself.  They must be asked for with a dot. -/
def dotNames (ts : List Token) : List String :=
  if ts.head? = some (.char '.') then
    ["..", "."].filter fun name => Glob.matchesName ts name.toList
  else []

/-- The paths that are reached from a node along the components of a pattern. -/
def walk (fs : FileSystem m ρ) : List Segment → Node → Search m (List String)
  | [], node => pure [node.path]
  | .literal name :: rest, dir => do
    let path := step dir.path name
    let there ← if name = "." ∨ name = ".." then pure dir.isDir else fs.isPresent path
    if there then walk fs rest (← nodeAt fs path) else return []
  | .wildcard ts :: rest, dir => do
    let names ← namesIn fs dir
    let dots ← gather (fun name => do walk fs rest (← nodeAt fs (ScriptPath.join dir.path name)))
      (if dir.isDir then dotNames ts else [])
    let found ← gather (fun e => do walk fs rest (← nodeOf fs dir.path e))
      (names.filter fun e => Glob.matchesName ts e.name.toList)
    return dots ++ found
  | .descend :: .descend :: rest, dir => walk fs (.descend :: rest) dir
  | .descend :: segment :: rest, dir =>
    below fs segment.matchesName (fun node => walk fs rest node) maxDepth dir
  | [.descend], dir =>
    below fs (fun _ => true) (fun node => return if node.isDir then [node.path] else [])
      maxDepth dir

def PathPattern.paths (fs : FileSystem m ρ) (p : PathPattern) : Search m (List String) := do
  walk fs p.segments (← nodeAt fs (if p.absolute then "/" else "."))

end CastGuard.Glob
