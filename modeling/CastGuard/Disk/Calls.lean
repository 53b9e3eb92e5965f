/-
# `CastGuard.Disk.Calls` — the calls of a disk

Each call of the file system as a function on disks, and the interface that they make.
-/
import CastGuard.Disk.Resolve
import CastGuard.FileSystem

namespace CastGuard.Disk

open CastGuard.Text

/-- What stands at a spot. -/
def Spot.occupant : Spot → Except IoError (Place × Entry)
  | .free _ => .error .missing
  | .taken p e => .ok (p, e)

/-- What a path leads to, through links. -/
def target (d : Disk) (cwd : Place) (path : String) : Except IoError (Place × Entry) :=
  (d.spot cwd .target path).bind Spot.occupant

def isDir (d : Disk) (cwd : Place) (path : String) : Bool :=
  match d.target cwd path with
  | .ok (_, .dir _) => true
  | _ => false

def isFile (d : Disk) (cwd : Place) (path : String) : Bool :=
  match d.target cwd path with
  | .ok (_, .file _ _) => true
  | _ => false

def isPresent (d : Disk) (cwd : Place) (path : String) : Bool :=
  match d.spot cwd .entry path with
  | .ok (.taken _ _) => true
  | _ => false

/-- The names in the directory that a path leads to. -/
def list (d : Disk) (cwd : Place) (path : String) : Except IoError (List Listed) :=
  match d.target cwd path with
  | .error e => .error e
  | .ok (p, .dir _) => .ok (d.listing p)
  | .ok _ => .error .notDirectory

def read (d : Disk) (cwd : Place) (path : String) : Except IoError String :=
  match d.target cwd path with
  | .error e => .error e
  | .ok (_, .file (.text s) _) => .ok s
  | .ok (_, .file (.bytes _) _) => .error .notText
  | .ok _ => .error .isDirectory

/-- The absolute path of a place. -/
def pathOf (p : Place) : String :=
  if p.isEmpty then "/" else String.join (p.map fun name => "/" ++ name.display)

/-- The absolute path of what a path leads to.  It is found name by name, so the path may have any
length. -/
def canonical (d : Disk) (cwd : Place) (path : String) : Except IoError String :=
  match (d.follow cwd .target path).bind Spot.occupant with
  | .error e => .error e
  | .ok (p, _) =>
    if p.all fun name => name.text?.isSome then .ok (pathOf p)
    else .error (.unreadableTarget (pathOf p))

/-- The permission bits of what a path leads to. -/
def mode (d : Disk) (cwd : Place) (path : String) : Except IoError Mode :=
  (d.target cwd path).map fun (_, e) => e.mode

/-- Sets the permission bits of what a path leads to. -/
def setMode (d : Disk) (cwd : Place) (path : String) (mode : Mode) : Except IoError Disk :=
  (d.target cwd path).map fun (p, e) => d.set p (e.withMode mode)

/-- Makes or overwrites the file that a path leads to; a file keeps its bits. -/
def write (d : Disk) (cwd : Place) (path text : String) : Except IoError Disk :=
  match d.spot cwd .make path with
  | .error e => .error e
  | .ok (.free p) => .ok (d.set p (.file (.text text) newFileMode))
  | .ok (.taken p (.file _ mode)) => .ok (d.set p (.file (.text text) mode))
  | .ok (.taken _ _) => .error .isDirectory

/-- Moves a file or link to another path, over any file or link that is there. -/
def rename (d : Disk) (cwd : Place) (source dest : String) : Except IoError Disk :=
  match d.spot cwd .entry source, d.spot cwd .entry dest with
  | .error e, _ => .error e
  | .ok (.free _), _ => .error .missing
  | .ok (.taken _ (.dir _)), _ => .error .isDirectory
  | _, .error e => .error e
  | .ok (.taken _ _), .ok (.taken _ (.dir _)) => .error .isDirectory
  | .ok (.taken p e), .ok (.taken q _) => if p = q then .ok d else .ok ((d.erase p).set q e)
  | .ok (.taken p e), .ok (.free q) => .ok ((d.erase p).set q e)

def remove (d : Disk) (cwd : Place) (path : String) : Except IoError Disk :=
  match d.spot cwd .entry path with
  | .error e => .error e
  | .ok (.free _) => .error .missing
  | .ok (.taken _ (.dir _)) => .error .isDirectory
  | .ok (.taken p _) => .ok (d.erase p)

/-- Makes the directories of some steps, as far as they are missing, and gives the place that they
lead to. -/
def makeDirs (d : Disk) (dir : Place) : List Step → Except IoError (Disk × Place)
  | [] => .ok (d, dir)
  | s :: rest =>
    match d.resolve .target maxLinks dir [s] with
    | .error e => .error e
    | .ok (.taken p (.dir _)) => makeDirs d p rest
    | .ok (.taken _ _) => .error .notDirectory
    | .ok (.free p) => makeDirs (d.set p (.dir newDirMode)) p rest

/-- Puts an entry at a path, making the directories on the way. -/
def plant (d : Disk) (cwd : Place) (path : Raw) (e : Entry) : Except IoError Disk :=
  let route := Route.ofPath path
  match route.steps.getLast? with
  | some (.into name) =>
    (d.makeDirs (if route.fromTop then [] else cwd) route.steps.dropLast).map fun (d, p) =>
      d.set (p ++ [name]) e
  | _ => .error .isDirectory

/-! ## The interface -/

def ask {α : Type} (f : Disk → α) : StateM Disk α := do return f (← get)

/-- A change of the disk, which may fail and then changes nothing. -/
def attempt (f : Disk → Except IoError Disk) : StateM Disk (Except IoError Unit) := do
  match f (← get) with
  | .error e => return .error e
  | .ok d =>
    modify fun _ => d
    return .ok ()

/-- The calls of a disk, seen from a working directory. -/
def fileSystem (cwd : Place) : FileSystem (StateM Disk) Mode where
  isDir path := ask (·.isDir cwd path)
  isFile path := ask (·.isFile cwd path)
  isPresent path := ask (·.isPresent cwd path)
  list path := ask (·.list cwd path)
  read path := ask (·.read cwd path)
  canonical path := ask (·.canonical cwd path)
  rights path := ask (·.mode cwd path)
  setRights path mode := attempt (·.setMode cwd path mode)
  write path text := attempt (·.write cwd path text)
  rename source dest := attempt (·.rename cwd source dest)
  remove path := attempt (·.remove cwd path)

end CastGuard.Disk
