/-
# `CastGuard.Diff.Hunk` — changes with their surroundings

Changes that touch form a block.  Blocks that are near each other are shown together in a hunk,
with up to three elements of context in front of the first block, behind the last one, and all
that lies between.
-/
import CastGuard.Diff.Compaction
import CastGuard.Diff.Script

namespace CastGuard.Diff

variable {α : Type}

/-- The number of context elements on either side. -/
def contextSize : Nat := 3

/-- Changes between two kept stretches: where they stand in both lists, and what they replace by
what. -/
structure Block (α : Type) where
  oldStart : Nat
  newStart : Nat
  deleted : List α
  inserted : List α
  deriving DecidableEq, Repr

namespace Block

def oldEnd (b : Block α) : Nat := b.oldStart + b.deleted.length

def newEnd (b : Block α) : Nat := b.newStart + b.inserted.length

def push (b : Block α) : Change → List α → Block α
  | .delete, xs => { b with deleted := b.deleted ++ xs }
  | .insert, xs => { b with inserted := b.inserted ++ xs }

end Block

/-- The blocks of a script whose next step is at position `i` of the old and `j` of the new list;
`openBlock` is the block that the next change would join. -/
def blocksFrom (i j : Nat) (openBlock : Option (Block α)) : List (Edit α) → List (Block α)
  | [] => openBlock.toList
  | .keep xs :: es => openBlock.toList ++ blocksFrom (i + xs.length) (j + xs.length) none es
  | .change c xs :: es =>
    let b := (openBlock.getD ⟨i, j, [], []⟩).push c xs
    blocksFrom b.oldEnd b.newEnd (some b) es

def blocks (es : List (Edit α)) : List (Block α) := blocksFrom 0 0 none es

inductive HunkLine (α : Type) where
  | context (x : α)
  | deleted (x : α)
  | inserted (x : α)
  deriving DecidableEq, Repr

/-- A stretch of both lists, element by element. -/
structure Hunk (α : Type) where
  oldStart : Nat
  oldSize : Nat
  newStart : Nat
  newSize : Nat
  lines : List (HunkLine α)
  deriving DecidableEq, Repr

/-- The two lists that are compared. -/
structure Sides (α : Type) where
  old : List α
  new : List α

namespace Sides

/-- The elements of a list from one position up to another. -/
def slice (xs : List α) (start stop : Nat) : List α := (xs.take stop).drop start

/-- The size of the context behind a block. -/
def contextAfter (s : Sides α) (b : Block α) : Nat :=
  min contextSize (min (s.old.length - b.oldEnd) (s.new.length - b.newEnd))

/-- Whether a block is near enough to the one before it to be shown together with it. -/
def joins (s : Sides α) (b next : Block α) : Bool :=
  min next.oldStart (s.old.length - 1) - contextSize < b.oldEnd + s.contextAfter b

/-- Divides blocks where two of them are not near each other. -/
def groups (s : Sides α) : List (Block α) → List (List (Block α))
  | [] => []
  | b :: bs =>
    match groups s bs with
    | (c :: cs) :: gs => if s.joins b c then (b :: c :: cs) :: gs else [b] :: (c :: cs) :: gs
    | gs => [b] :: gs

/-- Elements of the new list, shown as context. -/
def context (s : Sides α) (start stop : Nat) : List (HunkLine α) :=
  (slice s.new start stop).map .context

/-- A block's own lines: deletions, then insertions. -/
def changeLines (b : Block α) : List (HunkLine α) :=
  b.deleted.map .deleted ++ b.inserted.map .inserted

/-- The lines of a hunk from its first block on. -/
def groupLines (s : Sides α) : List (Block α) → List (HunkLine α)
  | [] => []
  | [b] => changeLines b ++ s.context b.newEnd (b.newEnd + s.contextAfter b)
  | b :: c :: bs => changeLines b ++ (s.context b.newEnd c.newStart ++ groupLines s (c :: bs))

/-- The hunk of a group of blocks. -/
def hunkOf (s : Sides α) (first : Block α) (others : List (Block α)) : Hunk α :=
  let last := others.getLastD first
  let oldStart := first.oldStart - contextSize
  let newStart := first.newStart - contextSize
  let after := s.contextAfter last
  ⟨oldStart, last.oldEnd + after - oldStart, newStart, last.newEnd + after - newStart,
    s.context newStart first.newStart ++ groupLines s (first :: others)⟩

def hunksOf (s : Sides α) (bs : List (Block α)) : List (Hunk α) :=
  (s.groups bs).filterMap fun
    | [] => none
    | b :: others => some (s.hunkOf b others)

end Sides

def hunks [DecidableEq α] (old new : List α) : List (Hunk α) :=
  Sides.hunksOf ⟨old, new⟩ (blocks (compact (script old new)))

end CastGuard.Diff
