/-
# `CastGuard.Diff.Unified` — hunks as text

The unified format: a hunk has a header with the places it covers, counted from one, and shows its
lines behind a sign.  An empty context line has no sign, and a last line without a line end is
marked.  A formatted diff is a header of two lines and the hunks.
-/
import CastGuard.Diff.Hunk

namespace CastGuard.Diff

/-- The lines of a text, each with its line end; the last one may have none. -/
def linesOf : List Char → List (List Char)
  | [] => []
  | c :: cs =>
    if c = '\n' then [c] :: linesOf cs
    else match linesOf cs with
      | [] => [[c]]
      | l :: ls => (c :: l) :: ls

theorem flatten_linesOf (cs : List Char) : (linesOf cs).flatten = cs := by
  induction cs with
  | nil => rfl
  | cons c cs ih =>
    simp only [linesOf]
    split
    · simp [ih]
    · split
      · next h => simp [h] at ih; simp [ih]
      · next h => simp [h] at ih; simp [ih]

/-- What follows a last line that has no line end. -/
def endMark : String := "\n\\ No newline at end of file\n"

/-- A line behind its sign, with its line end. -/
def signed (sign : Char) (line : List Char) : List Char :=
  sign :: if line.getLast? = some '\n' then line else line ++ endMark.toList

def HunkLine.render : HunkLine String → List Char
  | .context l => if l = "\n" then l.toList else signed ' ' l.toList
  | .deleted l => signed '-' l.toList
  | .inserted l => signed '+' l.toList

/-- The place of a stretch: its first line counted from one and its size, which is left out when it
is one.  An empty stretch stands behind the line that it gives. -/
def place (start size : Nat) : String :=
  let first := if size = 0 then start else start + 1
  if size = 1 then toString first else toString first ++ "," ++ toString size

def Hunk.header (h : Hunk String) : String :=
  "@@ -" ++ place h.oldStart h.oldSize ++ " +" ++ place h.newStart h.newSize ++ " @@\n"

def Hunk.render (h : Hunk String) : List Char :=
  h.header.toList ++ h.lines.flatMap HunkLine.render

/-- The lines of a text, each a text of its own. -/
def lines (cs : List Char) : List String := (linesOf cs).map String.ofList

/-- The two lines that a formatted diff starts with; they know no paths. -/
def formatHeader : String := "--- original\n+++ modified\n"

def format (before after : List Char) : List Char :=
  formatHeader.toList ++ (hunks (lines before) (lines after)).flatMap Hunk.render

end CastGuard.Diff
