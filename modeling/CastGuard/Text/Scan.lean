/-
# `CastGuard.Text.Scan` — cutting a text at everything a recogniser finds

A recogniser looks at one position: it is given the character before it and the text from there
on, and answers with what it found.  A find is as long as its spelling.  A scan tries every position
from left to right and goes on behind each find, so finds never overlap.  The outcome is the list
of pieces, kept characters and finds, in order; replacing finds is a matter of rendering the
pieces.
-/

namespace CastGuard.Text

/-- Answers what stands at the start of a text, given the character before. -/
abbrev Recogniser (α : Type) := Option Char → List Char → Option α

/-- A character between two finds, or a find. -/
inductive Piece (α : Type) where
  | kept (c : Char)
  | found (a : α)
  deriving DecidableEq, Repr

def Piece.found? {α : Type} : Piece α → Option α
  | .kept _ => none
  | .found a => some a

/-- The text of a piece, with every find spelled by `spell`. -/
def Piece.render {α : Type} (spell : α → List Char) : Piece α → List Char
  | .kept c => [c]
  | .found a => spell a

/-- The pieces of a text that follows the character `before`.  What is spelled with nothing counts
as not found. -/
def pieces {α : Type} (find : Recogniser α) (spell : α → List Char) (before : Option Char) :
    List Char → List (Piece α)
  | [] => []
  | c :: cs =>
    match find before (c :: cs) with
    | none => .kept c :: pieces find spell (some c) cs
    | some a =>
      let spelling := spell a
      if _h : 0 < spelling.length then
        .found a :: pieces find spell spelling.getLast? ((c :: cs).drop spelling.length)
      else .kept c :: pieces find spell (some c) cs
termination_by cs => cs.length
decreasing_by
  · simp
  · simp only [List.length_drop, List.length_cons, spelling] at *
    omega
  · simp

def render {α : Type} (spell : α → List Char) (ps : List (Piece α)) : List Char :=
  ps.flatMap (Piece.render spell)

def finds {α : Type} (ps : List (Piece α)) : List α := ps.filterMap Piece.found?

@[simp]
theorem render_nil {α : Type} (spell : α → List Char) : render spell [] = [] := rfl

@[simp]
theorem render_kept {α : Type} (spell : α → List Char) (c : Char) (ps : List (Piece α)) :
    render spell (.kept c :: ps) = c :: render spell ps := rfl

@[simp]
theorem render_found {α : Type} (spell : α → List Char) (a : α) (ps : List (Piece α)) :
    render spell (.found a :: ps) = spell a ++ render spell ps := rfl

end CastGuard.Text
