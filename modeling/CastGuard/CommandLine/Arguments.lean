/-
# `CastGuard.CommandLine.Arguments` — reading the arguments

Arguments are read from left to right.  Help and version are answered as soon as they are asked
for, provided that nothing before them was wrong; everything else must be an option that is known
and given once.
-/

namespace CastGuard.CommandLine

structure Options where
  dryRun : Bool
  diff : Bool
  projectRoot : Option String
  deriving DecidableEq, Repr

def Options.standard : Options := ⟨false, false, none⟩

inductive Request where
  | help
  | version
  | run (o : Options)
  deriving DecidableEq, Repr

/-- What follows a fixed text at the front of an argument. -/
def argumentAfter? (lit arg : String) : Option String :=
  if lit.toList.isPrefixOf arg.toList then some (String.ofList (arg.toList.drop lit.length))
  else none

/-- Whether an argument is an option rather than a value.  A single dash is a value. -/
def isOption (arg : String) : Bool := arg.toList.head? = some '-' && arg != "-"

/-- The request of a cluster of one-letter options: only the first letter counts, because each of
them is answered at once. -/
def letter? (arg : String) : Option Request :=
  match arg.toList with
  | '-' :: 'h' :: _ => some .help
  | '-' :: 'V' :: _ => some .version
  | _ => none

/-- Gives the project root, if it was not given before. -/
def Options.withRoot? (o : Options) (dir : String) : Option Options :=
  if o.projectRoot.isSome then none else some { o with projectRoot := some dir }

/-- Reads the remaining arguments; `none` stands for wrong usage. -/
def parseFrom? (o : Options) : List String → Option Request
  | [] => some (.run o)
  | ["--"] => some (.run o)
  | "--help" :: _ => some .help
  | "--version" :: _ => some .version
  | "--dry-run" :: args => if o.dryRun then none else parseFrom? { o with dryRun := true } args
  | "--diff" :: args => if o.diff then none else parseFrom? { o with diff := true } args
  | "--project-root" :: dir :: args =>
    if isOption dir then none else (o.withRoot? dir).bind fun o => parseFrom? o args
  | arg :: args =>
    match argumentAfter? "--project-root=" arg with
    | some dir => (o.withRoot? dir).bind fun o => parseFrom? o args
    | none => letter? arg

/-- What the arguments ask for; `none` stands for wrong usage. -/
def parse? (args : List String) : Option Request := parseFrom? .standard args

end CastGuard.CommandLine
