/-
# `CastGuard.CommandLine` — the program

The program loads the settings of a project, runs over its scripts, and prints the summary and, if
asked for, the patch.  It prints nothing unless it succeeds.
-/
import CastGuard.CommandLine.Arguments
import CastGuard.SettingsFile.Load
import CastGuard.Store.Tree

namespace CastGuard.CommandLine

/-- What a program leaves behind: its exit code and what it printed. -/
structure Result where
  exitCode : Nat
  output : String
  deriving DecidableEq, Repr

def Result.failed (exitCode : Nat) : Result := ⟨exitCode, ""⟩

def versionText : String := "castfix 0.1.0\n"

/-- The lines of the answer to a question for help. -/
def helpLines : List String :=
  ["Rewrite unsafe resource casts and untyped dictionary conversions in GDScript.",
   "",
   "Usage: castfix [OPTIONS]",
   "",
   "Options:",
   "      --dry-run                      Report what would change without modifying any file",
   "      --project-root <PROJECT_ROOT>  Project root containing the scanned directories "
     ++ "(default: current directory) [default: .]",
   "      --diff                         Print a unified diff of every changed file after the "
     ++ "summary",
   "  -h, --help                         Print help",
   "  -V, --version                      Print version"]

def helpText : String := String.join (helpLines.map (· ++ "\n"))

/-- What is printed of a report: the summary and, behind an empty line, a patch that is not
empty. -/
def reportText (r : Report) : String :=
  match r.patch with
  | none => r.summary
  | some patch => if patch.isEmpty then r.summary else r.summary ++ "\n" ++ patch

variable {m : Type → Type} [Monad m] {ρ : Type}

def runProject (fs : FileSystem m ρ) (o : Options) : m Result := do
  let projectRoot := o.projectRoot.getD "."
  match ← SettingsFile.load fs projectRoot with
  | .error _ => return .failed 1
  | .ok file =>
    match ← run (Tree.store fs projectRoot) (file.runSettings projectRoot o.dryRun o.diff) with
    | .error e => return .failed e.exitCode
    | .ok report => return ⟨0, reportText report⟩

def execute (fs : FileSystem m ρ) (args : List String) : m Result :=
  match parse? args with
  | none => pure (.failed 2)
  | some .help => pure ⟨0, helpText⟩
  | some .version => pure ⟨0, versionText⟩
  | some (.run o) => runProject fs o

end CastGuard.CommandLine
