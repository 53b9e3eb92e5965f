/-
# `CastGuard.Store.Tree` — the scripts below a project root

The store of a project on a file system.  Scripts are found by one pattern per root, and their
paths are given as seen from the project root.

A script is replaced as a whole: the new text is written beside the real file, gets its access
rights, and then takes its place.  Links on the way to the file stay as they are.
-/
import CastGuard.Glob.Walk
import CastGuard.ScriptPath
import CastGuard.Store.Fault

namespace CastGuard.Tree

variable {m : Type → Type} [Monad m] {ρ : Type}

/-! ## Finding scripts -/

/-- The project root without dots that say nothing. -/
def base (projectRoot : String) : String :=
  ScriptPath.ofComponents ((ScriptPath.components projectRoot).filter (· ≠ .here))

/-- The pattern for the scripts below a scan root, which may itself have wildcards. -/
def rootPattern (base root : String) : List Char :=
  (if base.isEmpty then [] else Glob.escape base.toList ++ ['/'])
    ++ root.toList ++ "/**/*.".toList ++ scriptExtension.toList

/-- The path of a found script, as seen from the project root. -/
def relative (base path : String) : String := (ScriptPath.below? base path).getD path

def filesAmong (fs : FileSystem m ρ) (paths : List String) : m (List String) :=
  Glob.gather (fun path => do
    if ← fs.isFile path then return [path] else return []) paths

/-- The scripts below one scan root, as seen from the project root. -/
def scriptsBelow (fs : FileSystem m ρ) (base root : String) :
    m (Except RunError (List String)) :=
  match Glob.PathPattern.parse (rootPattern base root) with
  | .error e => pure (.error (.scanRoot root e))
  | .ok pattern => do
    match ← (pattern.paths fs).run with
    | .error e => return .error (.io e.dir e.cause)
    | .ok paths =>
      let files ← filesAmong fs paths
      return .ok (files.map (relative base))

/-- The scripts below all scan roots, up to the first root that cannot be searched. -/
def scriptsBelowAll (fs : FileSystem m ρ) (base : String) :
    List String → m (Except RunError (List String))
  | [] => pure (.ok [])
  | root :: roots => do
    match ← scriptsBelow fs base (Selection.trimRoot root) with
    | .error e => return .error e
    | .ok found =>
      match ← scriptsBelowAll fs base roots with
      | .error e => return .error e
      | .ok more => return .ok (found ++ more)

/-- Paths in order and each once, under its first spelling. -/
def inOrder (paths : List String) : List String :=
  (paths.foldl (fun (m : PathMap Unit) p => m.add p ()) []).paths

def discover (fs : FileSystem m ρ) (projectRoot : String) (s : Selection) :
    m (Except RunError (List String)) := do
  match ← scriptsBelowAll fs (base projectRoot) s.roots with
  | .error e => return .error e
  | .ok found => return .ok (inOrder (found.filter fun path => !s.excludes path))

/-! ## Reading and replacing scripts -/

def read (fs : FileSystem m ρ) (projectRoot path : String) : m (Except RunError String) := do
  let full := ScriptPath.join projectRoot path
  return (← fs.read full).mapError (.io full)

/-- What the file beside a script is called while it is being written. -/
def staging (target : String) : String := target ++ ".castfix.tmp"

/-- Gives a staged file its rights and moves it into the place of its target. -/
def place (fs : FileSystem m ρ) (target : String) (rights : ρ) : m (Except IoError Unit) := do
  match ← fs.setRights (staging target) rights with
  | .error e => return .error e
  | .ok () => fs.rename (staging target) target

/-- Replaces the text of a file. -/
def replace (fs : FileSystem m ρ) (target text : String) : m (Except RunError Unit) := do
  match ← fs.rights target with
  | .error e => return .error (.io target e)
  | .ok rights =>
    match ← fs.write (staging target) text with
    | .error e => return .error (.io (staging target) e)
    | .ok () =>
      match ← place fs target rights with
      | .ok () => return .ok ()
      | .error e =>
        let _ ← fs.remove (staging target)
        return .error (.io target e)

/-- Replaces the text of a script, in the file that its path leads to. -/
def write (fs : FileSystem m ρ) (projectRoot path text : String) : m (Except RunError Unit) := do
  let full := ScriptPath.join projectRoot path
  match ← fs.canonical full with
  | .error e => return .error (.io full e)
  | .ok target => replace fs target text

def store (fs : FileSystem m ρ) (projectRoot : String) : Store m where
  discover s := do return (← discover fs projectRoot s).mapError .known
  read path := do return (← read fs projectRoot path).mapError .known
  write path text := do return (← write fs projectRoot path text).mapError .known

end CastGuard.Tree
