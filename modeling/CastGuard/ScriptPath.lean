/-
# `CastGuard.ScriptPath` — paths as texts and as components

A path is kept as it is spelled, because that spelling is what reports show.  What it means is its
list of components: repeated slashes, a slash at the end and a dot inside say nothing, so that
several spellings name the same path.  A dot in front and two dots anywhere are components of their
own and are never resolved.

Two paths are compared by their components: the root comes first, then the leading dot, the two
dots, and the names in the order of their characters.  Maps by path are lists in that order, with
each path once, whatever its spelling.
-/
import CastGuard.Text.Literal
import CastGuard.Text.Parts

namespace CastGuard

open CastGuard.Text

inductive Component where
  | root
  | here
  | up
  | name (s : String)
  deriving DecidableEq, Repr

namespace Component

/-- The step that a part of a path's text stands for, when it is not the first part. -/
def ofInner (part : List Char) : Option Component :=
  if part = [] ∨ part = ['.'] then none
  else if part = ['.', '.'] then some .up
  else some (.name (String.ofList part))

/-- The step that the first part of a relative path stands for. -/
def ofFirst (part : List Char) : Option Component :=
  if part = ['.'] then some .here else ofInner part

def name? : Component → Option String
  | .name s => some s
  | _ => none

/-- The place of a kind of step in the order. -/
def rank : Component → Nat
  | .root => 0
  | .here => 1
  | .up => 2
  | .name _ => 3

def before (a b : Component) : Bool :=
  match a, b with
  | .name s, .name t => s < t
  | a, b => a.rank < b.rank

def text : Component → String
  | .root => ""
  | .here => "."
  | .up => ".."
  | .name s => s

end Component

namespace ScriptPath

/-- Whether a path starts at the root of the file system. -/
def isAbsolute (path : String) : Bool := path.toList.head? = some '/'

/-- The parts of a path's text with the step each stands for.  An absolute path has an empty first
part, which stands for the root. -/
def steps (path : String) : List (List Char × Option Component) :=
  match parts '/' path.toList with
  | [] => []
  | p :: ps =>
    (p, if isAbsolute path then some .root else Component.ofFirst p)
      :: ps.map fun q => (q, Component.ofInner q)

def components (path : String) : List Component := (steps path).filterMap Prod.snd

/-- Two spellings of the same path. -/
def same (p q : String) : Bool := components p = components q

/-- The order of component lists: the first difference decides, and a path comes before what is
below it. -/
def componentsBefore : List Component → List Component → Bool
  | _, [] => false
  | [], _ :: _ => true
  | a :: as, b :: bs => if a = b then componentsBefore as bs else a.before b

def before (p q : String) : Bool := componentsBefore (components p) (components q)

/-- The plain spelling of a list of components. -/
def ofComponents (cs : List Component) : String :=
  if cs = [.root] then "/"
  else String.ofList (joined '/' (cs.map fun c => c.text.toList))

/-- The name of the file that a path leads to, if it ends in a name. -/
def fileName? (path : String) : Option String := (components path).getLast?.bind Component.name?

/-- What follows the last dot of a name, if something precedes that dot. -/
def extensionOf (name : String) : Option String :=
  match (parts '.' name.toList).reverse with
  | [] => none
  | [_] => none
  | [_, []] => none
  | ext :: _ => some (String.ofList ext)

/-- The extension of the file that a path leads to. -/
def extension? (path : String) : Option String := (fileName? path).bind extensionOf

/-- The names of the directories that a path leads through. -/
def directories (path : String) : List String :=
  (components path).dropLast.filterMap Component.name?

/-- Whether a path is `top` or lies below it. -/
def isBelow (top path : String) : Bool := (components top).isPrefixOf (components path)

/-- A path seen from a directory: an absolute path stays, the empty directory adds nothing. -/
def join (dir path : String) : String :=
  if isAbsolute path || dir.isEmpty then path
  else if dir.toList.getLast? = some '/' then dir ++ path
  else dir ++ "/" ++ path

/-- Drops the first `n` components of a path's parts, and the parts without a component that
follow. -/
def dropSteps : Nat → List (List Char × Option Component) → List (List Char × Option Component)
  | _, [] => []
  | 0, (_, none) :: rest => dropSteps 0 rest
  | 0, steps => steps
  | n + 1, (_, none) :: rest => dropSteps (n + 1) rest
  | n + 1, (_, some _) :: rest => dropSteps n rest

/-- The part of a path that lies below `top`, as it is spelled. -/
def below? (top path : String) : Option String :=
  if components top = [] then some path
  else if isBelow top path then
    some (String.ofList
      (joined '/' ((dropSteps (components top).length (steps path)).map Prod.fst)))
  else none

end ScriptPath

/-! ## Maps -/

/-- Values by path, in increasing order of paths. -/
abbrev PathMap (α : Type) := List (String × α)

namespace PathMap

variable {α : Type}

/-- Puts an entry in its place; `merge` makes one entry out of an old and a new one for the same
path. -/
def insertWith (merge : String × α → String × α → String × α) (e : String × α) :
    PathMap α → PathMap α
  | [] => [e]
  | d :: m =>
    if ScriptPath.same e.1 d.1 then merge d e :: m
    else if ScriptPath.before e.1 d.1 then e :: d :: m
    else d :: insertWith merge e m

/-- Sets the value of a path; a path already there keeps its spelling. -/
def set (path : String) (value : α) (m : PathMap α) : PathMap α :=
  insertWith (fun d e => (d.1, e.2)) (path, value) m

/-- Sets the value and the spelling of a path. -/
def put (path : String) (value : α) (m : PathMap α) : PathMap α :=
  insertWith (fun _ e => e) (path, value) m

/-- Adds a path that is not there yet. -/
def add (path : String) (value : α) (m : PathMap α) : PathMap α :=
  insertWith (fun d _ => d) (path, value) m

/-- The map of a list; of two entries for one path the later one counts. -/
def ofList (es : List (String × α)) : PathMap α := es.foldl (fun m (p, v) => m.put p v) []

def get? (path : String) (m : PathMap α) : Option α :=
  (m.find? fun e => ScriptPath.same path e.1).map Prod.snd

def paths (m : PathMap α) : List String := m.map Prod.fst

end PathMap

end CastGuard
