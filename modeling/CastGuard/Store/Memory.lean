/-
# `CastGuard.Store.Memory` — scripts in memory

A store that holds the scripts themselves.  A script is found under any spelling of its path.
-/
import CastGuard.ScriptPath
import CastGuard.Store.Fault

namespace CastGuard

structure Memory where
  scripts : PathMap String
  deriving DecidableEq, Repr

namespace Memory

/-- The scripts of a list; of two with the same path the later one counts. -/
def ofList (scripts : List (String × String)) : Memory := ⟨PathMap.ofList scripts⟩

def get? (mem : Memory) (path : String) : Option String := mem.scripts.get? path

def discover (mem : Memory) (s : Selection) : List String := mem.scripts.paths.filter s.selects

def write (mem : Memory) (path text : String) : Memory := ⟨mem.scripts.set path text⟩

def store : Store (StateM Memory) where
  discover s := do return .ok ((← get).discover s)
  read path := do
    match (← get).get? path with
    | some text => return .ok text
    | none => return .error (.known (.io path .absent))
  write path text := do
    modify fun mem => mem.write path text
    return .ok ()

end Memory

end CastGuard
