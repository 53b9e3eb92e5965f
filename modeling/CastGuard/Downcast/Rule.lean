/-
# `CastGuard.Downcast.Rule` — recognising statements that end in a cast and guarding them

A statement starts its line and ends it.  The value is the shortest text after which ` as `, a
known type and trailing blanks complete the line; types are tried in their given order, in the
declaration as well as in the cast.  Known types may be any texts here.  For types that are
identifiers, and so hold no blanks, there is at most one way to read a line.

There is one rule per form: every statement of the form, found from top to bottom, gets its cast
guarded.  A declaration whose type differs from its cast is read like any other and left as it is.
-/
import CastGuard.Downcast.Statement
import CastGuard.Text.Literal
import CastGuard.Text.Scan
import CastGuard.Text.Word

namespace CastGuard.Downcast

open CastGuard.Text

/-! ## Reading a statement -/

/-- Blanks that may stand in front of a statement. -/
def isIndent (c : Char) : Bool := c == ' ' || c == '\t'

/-- Blanks that may stand behind a statement. -/
def isTrailing (c : Char) : Bool := c == ' ' || c == '\t' || c == '\r'

def endsLine : List Char → Bool
  | [] => true
  | c :: _ => c == '\n'

def startsLine : Option Char → Bool
  | none => true
  | some c => c == '\n'

def trailing? (cs : List Char) : Option (List Char × List Char) :=
  if endsLine (cs.dropWhile isTrailing) then
    some (cs.takeWhile isTrailing, cs.dropWhile isTrailing)
  else none

/-- The cast keyword, a known type and the end of the line. -/
def typeAtEnd? (types : List (List Char)) (cs : List Char) :
    Option ((List Char × List Char) × List Char) :=
  (after? " as ".toList cs).bind fun cs =>
    types.findSome? fun type =>
      (after? type cs).bind fun cs =>
        (trailing? cs).map fun (trailing, rest) => ((type, trailing), rest)

/-- A value of at least one character and the cast that ends its line. -/
def cast? (types : List (List Char)) : List Char → Option (Cast × List Char)
  | [] => none
  | c :: cs =>
    if c == '\n' then none
    else match typeAtEnd? types cs with
      | some ((type, trailing), rest) => some (⟨[c], type, trailing⟩, rest)
      | none => (cast? types cs).map fun (k, rest) => (⟨c :: k.value, k.type, k.trailing⟩, rest)

/-- A declaration behind its indent; the declared type is one of the known types. -/
def declaration? (types : List (List Char)) (cs : List Char) :
    Option ((Destination × Cast) × List Char) := do
  let cs ← after? "var ".toList cs
  let (name, cs) ← run? isWord cs
  let cs ← after? ": ".toList cs
  types.findSome? fun type => do
    let cs ← after? (type ++ " = ".toList) cs
    let (cast, rest) ← cast? types cs
    return ((.variable name type, cast), rest)

def returning? (types : List (List Char)) (cs : List Char) :
    Option ((Destination × Cast) × List Char) := do
  let cs ← after? "return ".toList cs
  let (cast, rest) ← cast? types cs
  return ((.caller, cast), rest)

def assignment? (types : List (List Char)) (cs : List Char) :
    Option ((Destination × Cast) × List Char) := do
  let (name, cs) ← run? isDottedChar cs
  if !isDotted name then none
  let cs ← after? " = ".toList cs
  let (cast, rest) ← cast? types cs
  return ((.target name, cast), rest)

/-- A statement of a form behind its indent. -/
def Form.read? : Form → List (List Char) → List Char → Option ((Destination × Cast) × List Char)
  | .declaration => declaration?
  | .returning => returning?
  | .assignment => assignment?

def statementIn? (f : Form) (types : List (List Char)) (cs : List Char) :
    Option (Statement × List Char) :=
  (f.read? types (cs.dropWhile isIndent)).map fun ((destination, cast), rest) =>
    (⟨cs.takeWhile isIndent, destination, cast⟩, rest)

/-- The statement at a position; statements stand at the start of a line. -/
def statementAt? (f : Form) (types : List (List Char)) : Recogniser Statement := fun before cs =>
  if startsLine before then (statementIn? f types cs).map Prod.fst else none

/-! ## The rules -/

/-- The rule of a form: what it refers to and the types whose casts it guards. -/
structure Rule where
  form : Form
  guard : Guard
  types : List String
  deriving DecidableEq, Repr

def Rule.id (r : Rule) : String := r.form.ruleId

/-- The texts that the rule takes for a type; with no type given, the empty text alone. -/
def Rule.typeTexts (r : Rule) : List (List Char) :=
  if r.types.isEmpty then [[]] else r.types.map String.toList

def Rule.pieces (r : Rule) (cs : List Char) : List (Piece Statement) :=
  Text.pieces (statementAt? r.form r.typeTexts) Statement.written none cs

def Rule.replace (r : Rule) (s : Statement) : List Char :=
  if s.consistent then s.guarded r.guard else s.written

def Rule.text (r : Rule) (cs : List Char) : List Char := render r.replace (r.pieces cs)

def Rule.fixes (r : Rule) (cs : List Char) : Nat :=
  ((finds (r.pieces cs)).filter Statement.consistent).length

/-- The rules of all forms, in the order in which they are applied; none without known types. -/
def rules (guard : Guard) (types : List String) : List Rule :=
  if types.isEmpty then [] else Form.all.map fun f => ⟨f, guard, types⟩

end CastGuard.Downcast
