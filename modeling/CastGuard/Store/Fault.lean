/-
# `CastGuard.Store.Fault` — where scripts are kept, and how that can fail

A store lists, reads and writes scripts.  Runs know nothing else of it, so that they work alike on
a store in memory, on a file tree, and on either of them with failures put in.

A fault makes one call of a store fail: the listing, or the reading or writing of one path, by its
spelling.  All other calls go through.
-/
import CastGuard.Error
import CastGuard.Selection

namespace CastGuard

/-- A place that scripts are listed, read and written at. -/
structure Store (m : Type → Type) where
  /-- the paths of the selected scripts, in order -/
  discover : Selection → m (Except StoreError (List String))
  read : String → m (Except StoreError String)
  write : String → String → m (Except StoreError Unit)

/-! ## Faults -/

inductive StoreCall where
  | discover
  | read (path : String)
  | write (path : String)
  deriving DecidableEq, Repr

/-- A call that fails, and how. -/
structure Fault where
  call : StoreCall
  error : StoreError
  deriving DecidableEq, Repr

/-- How a call fails, if it does: the first fault for it counts. -/
def faultFor? (faults : List Fault) (call : StoreCall) : Option StoreError :=
  (faults.find? fun f => f.call = call).map Fault.error

/-- Lets a call fail if there is a fault for it. -/
def orFault {m : Type → Type} [Monad m] {α : Type} (faults : List Fault) (call : StoreCall)
    (act : m (Except StoreError α)) : m (Except StoreError α) :=
  match faultFor? faults call with
  | some e => pure (.error e)
  | none => act

def Store.withFaults {m : Type → Type} [Monad m] (store : Store m) (faults : List Fault) :
    Store m where
  discover s := orFault faults .discover (store.discover s)
  read path := orFault faults (.read path) (store.read path)
  write path text := orFault faults (.write path) (store.write path text)

end CastGuard
