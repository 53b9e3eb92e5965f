/-
# `CastGuard.Report` — what a run did, and how it is told

A run reports every script it changed, with its fixes by rule.  The summary lists the scripts and
the total; the patch shows the changes, one section per script.  A section has a header with the
path of its script; the header that the diff itself starts with is looked for and left out.
-/
import CastGuard.Diff.Unified
import CastGuard.Tally
import CastGuard.Text.Literal

namespace CastGuard

open CastGuard.Text

structure FileReport where
  path : String
  fixes : Nat
  byRule : Tally
  /-- whether the change was written -/
  written : Bool
  deriving DecidableEq, Repr

structure Report where
  dryRun : Bool
  scanned : Nat
  files : List FileReport
  /-- the changes in unified format, if they were asked for -/
  patch : Option String
  deriving DecidableEq, Repr

namespace Report

def totalFixes (r : Report) : Nat := sumOf FileReport.fixes r.files

def totalsByRule (r : Report) : Tally := r.files.foldl (fun t f => t.merge f.byRule) []

def dryRunBanner : String := "DRY RUN - no files will be modified"

def fileLine (f : FileReport) : String := f.path ++ ": " ++ toString f.fixes ++ " fixes\n"

def summary (r : Report) : String :=
  (if r.dryRun then dryRunBanner ++ "\n\n" else "")
    ++ String.join (r.files.map fileLine)
    ++ "\nTotal: " ++ toString r.totalFixes ++ " fixes"
    ++ (if r.dryRun then " (dry run)" else "") ++ "\n"

end Report

/-- The header of a script's section in a patch. -/
def patchHeader (path : String) : String :=
  "diff --git a/" ++ path ++ " b/" ++ path ++ "\n--- a/" ++ path ++ "\n+++ b/" ++ path ++ "\n"

/-- A formatted diff without its own header: what stands behind the line end in front of the first
`@@`.  A diff without any is left whole. -/
def withoutHeader (body : List Char) : List Char :=
  match fromFirst? "\n@@".toList body with
  | some cs => cs.drop 1
  | none => body

/-- A text, with a line end put behind it unless it ends in one. -/
def lineEnded (cs : List Char) : List Char := if cs.getLast? = some '\n' then cs else cs ++ ['\n']

theorem lineEnded_ne_nil (cs : List Char) : lineEnded cs ≠ [] := by
  unfold lineEnded
  split
  · next h =>
    rintro rfl
    exact absurd h (by simp)
  · simp

/-- A script's section in a patch; there is none for a script that did not change. -/
def filePatch (path before after : String) : String :=
  if before = after then ""
  else String.ofList (lineEnded ((patchHeader path).toList ++
    withoutHeader (Diff.format before.toList after.toList)))

end CastGuard
