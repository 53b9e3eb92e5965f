/-
# `CastGuard.Run` — fixing all selected scripts of a store

A run visits the selected scripts in order.  Each is read and fixed; one that changes is added to
the patch, written back unless the run is dry, and reported.  The first failure ends the run, and
what was written until then stays written.
-/
import CastGuard.Fixer
import CastGuard.Report
import CastGuard.Store.Fault

namespace CastGuard

/-- What a run is to do. -/
structure RunSettings where
  projectRoot : String
  selection : Selection
  style : Style
  /-- nothing is written -/
  dryRun : Bool
  /-- the changes are collected in a patch -/
  wantsPatch : Bool
  deriving DecidableEq, Repr

namespace Report

/-- The report of a run that has not visited anything. -/
def start (s : RunSettings) : Report := ⟨s.dryRun, 0, [], if s.wantsPatch then some "" else none⟩

/-- One more script was read. -/
def scan (r : Report) : Report := { r with scanned := r.scanned + 1 }

/-- One more script was changed. -/
def change (r : Report) (path before : String) (o : Outcome) : Report :=
  { r with
    files := r.files ++ [⟨path, o.fixes, o.byRule, !r.dryRun⟩]
    patch := r.patch.map (· ++ filePatch path before o.text) }

end Report

variable {m : Type → Type} [Monad m]

/-- Writes a changed script back, unless the run is dry. -/
def writeBack (store : Store m) (dryRun : Bool) (path text : String) :
    m (Except StoreError Unit) :=
  if dryRun then pure (.ok ()) else store.write path text

def visit (store : Store m) (fixer : Fixer) (r : Report) (path : String) :
    m (Except RunError Report) := do
  match ← store.read path with
  | .error e => return .error e.toRunError
  | .ok before =>
    let o := fixer.fix before
    if o.text = before then return .ok r.scan
    else match ← writeBack store r.dryRun path o.text with
      | .error e => return .error e.toRunError
      | .ok () => return .ok (r.scan.change path before o)

/-- Visits scripts one after the other, up to the first failure. -/
def visitAll (store : Store m) (fixer : Fixer) : Report → List String → m (Except RunError Report)
  | r, [] => pure (.ok r)
  | r, path :: paths => do
    match ← visit store fixer r path with
    | .error e => return .error e
    | .ok r => visitAll store fixer r paths

/-- Fixes all selected scripts of a store. -/
def run (store : Store m) (s : RunSettings) : m (Except RunError Report) :=
  match Fixer.ofStyle s.style with
  | .error e => pure (.error (.style e))
  | .ok fixer => do
    match ← store.discover s.selection with
    | .error e => return .error e.toRunError
    | .ok paths => visitAll store fixer (.start s) paths

end CastGuard
