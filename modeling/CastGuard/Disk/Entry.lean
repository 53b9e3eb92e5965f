/-
# `CastGuard.Disk.Entry` — a disk as a value

A disk is a list of places with what is there: files, directories and links.  A place is the list
of names that leads to it from the top, without any link on the way.

Some things that befall a machine have no counterpart.  A write succeeds as a whole or does nothing,
so none breaks off with a part of its text written, as on a full disk; what happens to the file that
such a write leaves behind is not said anywhere.  A file stands at one place, so there are no hard
links.  Permission bits are kept and copied, but no call is refused for them.
-/
import CastGuard.FileSystem
import CastGuard.Text.Utf8

namespace CastGuard

open CastGuard.Text

abbrev Mode := Nat

inductive Entry where
  | file (content : Raw) (mode : Mode)
  | dir (mode : Mode)
  | link (target : Raw)
  deriving DecidableEq, Repr

namespace Entry

/-- The permission bits of an entry; a link has none that count. -/
def mode : Entry → Mode
  | .file _ mode => mode
  | .dir mode => mode
  | .link _ => 0o777

/-- What a listing says of an entry. -/
def kind : Entry → Kind
  | .file _ _ => .other
  | .dir _ => .directory
  | .link _ => .link

def withMode (mode : Mode) : Entry → Entry
  | .file c _ => .file c mode
  | .dir _ => .dir mode
  | .link t => .link t

end Entry

/-- The names that lead to a place from the top. -/
abbrev Place := List Raw

/-- Places with what is there; each place at most once. -/
structure Disk where
  entries : List (Place × Entry)
  deriving DecidableEq, Repr

namespace Disk

def newFileMode : Mode := 0o644

def newDirMode : Mode := 0o755

/-- A disk with nothing but its top. -/
def empty : Disk := ⟨[]⟩

/-- What stands at a place; the top is a directory. -/
def get? (d : Disk) (p : Place) : Option Entry :=
  match p with
  | [] => some (.dir newDirMode)
  | p => (d.entries.find? fun e => e.1 = p).map Prod.snd

/-- Puts an entry into a list of entries; a new place comes last. -/
def put (p : Place) (e : Entry) : List (Place × Entry) → List (Place × Entry)
  | [] => [(p, e)]
  | (q, f) :: es => if q = p then (q, e) :: es else (q, f) :: put p e es

def set (d : Disk) (p : Place) (e : Entry) : Disk := ⟨put p e d.entries⟩

def erase (d : Disk) (p : Place) : Disk := ⟨d.entries.filter fun e => e.1 ≠ p⟩

/-- The names directly below a place, as far as they are texts. -/
def listing (d : Disk) (p : Place) : List Listed :=
  d.entries.filterMap fun (q, e) =>
    if q.dropLast = p then (q.getLast?.bind Raw.text?).map (⟨·, e.kind⟩) else none

end Disk

end CastGuard
