/-
# `CastGuard.Diff.Snake` — where two lists are best divided

A shortest script is a path through a grid: a step to the right deletes, a step down inserts, and
a diagonal step keeps an element that both lists have.  Paths from the start and paths from the
end are explored in rounds; in round `d` each path has made `d` changes, and for every diagonal
only the path that got furthest is remembered.  Where paths from both sides first meet, the grid
is divided.

The paths from the end are those from the start of the reversed lists, so one description serves
both.
-/
import CastGuard.Diff.Edit

namespace CastGuard.Diff

variable {α : Type} [DecidableEq α]

/-- A furthest path: its diagonal, the column after its last change, and the column after the
common elements that follow. -/
structure Reach where
  diagonal : Int
  turn : Nat
  column : Nat
  deriving DecidableEq, Repr

/-- The row of a column on a diagonal. -/
def rowAt (diagonal : Int) (column : Nat) : Nat := ((column : Int) - diagonal).toNat

/-- Columns of the inner diagonals of the next round: the further of going down from the diagonal
above and going right from the one below. -/
def innerColumns : List Nat → List Nat
  | b :: a :: rest => (if a < b then b else a + 1) :: innerColumns (a :: rest)
  | rest => rest

/-- Columns after one more change, from those of the last round; diagonals are listed from the
highest to the lowest. -/
def nextColumns : List Nat → List Nat
  | [] => [0]
  | b :: rest => (b + 1) :: innerColumns (b :: rest)

/-- The column behind the elements that both lists have from a column and a row on. -/
def slideFrom (old new : Array α) (column row : Nat) : Nat :=
  if h : column < old.size ∧ row < new.size then
    if old[column] = new[row] then slideFrom old new (column + 1) (row + 1) else column
  else column
termination_by old.size - column

/-- The paths of round `d`, given where each has turned. -/
def reaches (old new : Array α) (d : Nat) (turns : List Nat) : List Reach :=
  turns.zipIdx.map fun (turn, i) =>
    let diagonal : Int := (d : Int) - 2 * (i : Int)
    ⟨diagonal, turn, slideFrom old new turn (rowAt diagonal turn)⟩

/-- The column reached on a diagonal.  Every second diagonal is listed, from the highest on, so its
place is known. -/
def columnOn (rs : Array Reach) (diagonal : Int) : Option Nat :=
  let highest : Int := (rs.size : Int) - 1
  (rs[((highest - diagonal) / 2).toNat]?).bind fun r =>
    if r.diagonal = diagonal then some r.column else none

/-- The first path of `rs` that meets one of `others`, which come from the opposite corner. -/
def meeting? (n m : Nat) (rs : List Reach) (others : Array Reach) : Option Reach :=
  rs.find? fun r =>
    match columnOn others ((n : Int) - (m : Int) - r.diagonal) with
    | some c => n ≤ r.column + c
    | none => false

/-- The two lists of a search, read from the start and from the end. -/
structure Grid (α : Type) where
  old : Array α
  new : Array α
  oldReversed : Array α
  newReversed : Array α

def Grid.of (old new : List α) : Grid α :=
  ⟨old.toArray, new.toArray, old.reverse.toArray, new.reverse.toArray⟩

/-- Explores rounds from `d` on, at most `fuel` of them.  When the lengths differ by an odd number,
a path from the start completes a meeting, else one from the end. -/
def Grid.search (g : Grid α) (fuel d : Nat) (fromStart fromEnd : List Reach) :
    Option (Nat × Nat) :=
  match fuel with
  | 0 => none
  | fuel + 1 =>
    let n := g.old.size
    let m := g.new.size
    let odd := (n + m) % 2 = 1
    let forward := reaches g.old g.new d (nextColumns (fromStart.map Reach.column))
    match if odd then meeting? n m forward fromEnd.toArray else none with
    | some r => some (r.turn, rowAt r.diagonal r.turn)
    | none =>
      let backward :=
        reaches g.oldReversed g.newReversed d (nextColumns (fromEnd.map Reach.column))
      match if odd then none else meeting? n m backward forward.toArray with
      | some r => some (n - r.column, m - rowAt r.diagonal r.column)
      | none => g.search fuel (d + 1) forward backward

/-- Where to divide two lists: the numbers of elements in front of the division. -/
def middle? (old new : List α) : Option (Nat × Nat) :=
  (Grid.of old new).search (old.length + new.length + 1) 0 [] []

end CastGuard.Diff
