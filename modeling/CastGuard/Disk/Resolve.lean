/-
# `CastGuard.Disk.Resolve` — where a path leads

A path is followed step by step from a directory.  A link is replaced by the steps of its target,
at most forty times on one path.  What a path leads to is a place with something at it, or a place
where something could be made, or an error.  Names and whole paths have a greatest length in bytes,
and no path holds a NUL.
-/
import CastGuard.Disk.Entry
import CastGuard.Error
import CastGuard.Text.Parts

namespace CastGuard.Disk

open CastGuard.Text

/-- One step of a path on a disk. -/
inductive Step where
  | stay
  | up
  | into (name : Raw)
  /-- a slash at the end, which asks for a directory -/
  | inside
  deriving DecidableEq, Repr

/-- The steps of a path, and whether they start at the top. -/
structure Route where
  fromTop : Bool
  steps : List Step
  deriving DecidableEq, Repr

/-- The step of one part of a path that is not empty. -/
def Step.ofName (name : Raw) : Step :=
  if name = .text "." then .stay else if name = .text ".." then .up else .into name

def byteParts : List UInt8 → List (List UInt8)
  | [] => [[]]
  | b :: bs =>
    if b = 0x2f then [] :: byteParts bs
    else match byteParts bs with
      | [] => [[b]]
      | p :: ps => (b :: p) :: ps

/-- The names of a path, empty ones included. -/
def namesOf : Raw → List Raw
  | .text s => (parts '/' s.toList).map fun p => .text (String.ofList p)
  | .bytes bs => (byteParts bs).map .ofBytes

def Route.ofPath (path : Raw) : Route :=
  let names := namesOf path
  let steps := (names.filter (· ≠ .text "")).map Step.ofName
  ⟨names.length > 1 ∧ names.head? = some (.text ""),
    if names.length > 1 ∧ names.getLast? = some (.text "") then steps ++ [.inside] else steps⟩

/-- Where a path leads. -/
inductive Spot where
  /-- something is there -/
  | taken (p : Place) (e : Entry)
  /-- the directory is there, the name in it is free -/
  | free (p : Place)
  deriving DecidableEq, Repr

/-- The number of links that may be followed on one path. -/
def maxLinks : Nat := 40

/-- The greatest length of a name in bytes. -/
def maxNameSize : Nat := 255

/-- The greatest length of a path in bytes. -/
def maxPathSize : Nat := 4095

/-- What a path is followed for. -/
inductive Purpose where
  /-- for what it leads to, through links -/
  | target
  /-- for the entry itself, so that a link at the very end is not followed -/
  | entry
  /-- to make a file where it leads to, through links -/
  | make
  deriving DecidableEq, Repr

/-- Follows steps from a directory.  `through` goes on behind a link; without it no link may be
followed.  A file cannot be made at a name with a slash behind it, whatever stands there. -/
def resolveWith (d : Disk) (purpose : Purpose)
    (through : Option (Place → List Step → Except IoError Spot)) (dir : Place) (steps : List Step) :
    Except IoError Spot :=
  match steps with
  | [] => .ok (.taken dir ((d.get? dir).getD (.dir newDirMode)))
  | .stay :: rest => resolveWith d purpose through dir rest
  | .inside :: rest => resolveWith d purpose through dir rest
  | .up :: rest => resolveWith d purpose through dir.dropLast rest
  | .into name :: rest =>
    let p := dir ++ [name]
    if purpose = .make ∧ rest = [.inside] then .error .isDirectory
    else if maxNameSize < name.size then .error .nameTooLong
    else match d.get? p with
      | none => if rest.isEmpty then .ok (.free p) else .error .missing
      | some (.dir _) => resolveWith d purpose through p rest
      | some (.file c mode) =>
        if rest.isEmpty then .ok (.taken p (.file c mode)) else .error .notDirectory
      | some (.link target) =>
        if rest.isEmpty ∧ purpose = .entry then .ok (.taken p (.link target))
        else match through with
          | none => .error .tooManyLinks
          | some go =>
            let route := Route.ofPath target
            go (if route.fromTop then [] else dir) (route.steps ++ rest)

/-- Follows steps from a directory.  `links` is the number of links that may still be followed. -/
def resolve (d : Disk) (purpose : Purpose) (links : Nat) :
    Place → List Step → Except IoError Spot :=
  match links with
  | 0 => resolveWith d purpose none
  | links + 1 => resolveWith d purpose (some (resolve d purpose links))

/-- Whether a text can be handed over as a path. -/
def isPath (path : String) : Bool := !path.toList.contains '\x00'

/-- Where a path of any length leads, seen from a working directory. -/
def follow (d : Disk) (cwd : Place) (purpose : Purpose) (path : String) : Except IoError Spot :=
  let route := Route.ofPath (.text path)
  if !isPath path then .error .nulInName
  else if path.isEmpty then .error .missing
  else resolve d purpose maxLinks (if route.fromTop then [] else cwd) route.steps

/-- Where a path leads, seen from a working directory. -/
def spot (d : Disk) (cwd : Place) (purpose : Purpose) (path : String) : Except IoError Spot :=
  if isPath path ∧ maxPathSize < path.utf8ByteSize then .error .nameTooLong
  else d.follow cwd purpose path

end CastGuard.Disk
