/-
# `CastGuard.Lookup.Rule` — recognising look-ups and giving them their typed accessor

A call is read from left to right, and each part ends at the first character that cannot belong to
it, so there is nothing to go back on:

* the container and `.get` form one run of word characters and dots, up to the parenthesis;
* the key runs to the next double quote;
* the default runs to the closing parentheses, after leading blanks.

The default is the one part with a choice.  Each kind prefers a literal form of its own and takes
any text without parentheses otherwise; a form counts only if the call closes right behind it.
The preference shows for strings alone, since only a quoted literal can hold a parenthesis.

There is one rule per kind: every call of the kind, found from left to right, becomes a call of the
typed accessor, and the text between the calls stays.
-/
import CastGuard.Lookup.Call
import CastGuard.Text.Literal
import CastGuard.Text.Scan
import CastGuard.Text.Word

namespace CastGuard.Lookup

open CastGuard.Text

/-! ## Defaults -/

inductive Form where
  /-- text between double quotes -/
  | quoted
  /-- decimal digits -/
  | digits
  /-- a truth value -/
  | truth
  /-- decimal digits and points -/
  | decimals
  /-- any text without parentheses, perhaps empty -/
  | plain
  deriving DecidableEq, Repr

/-- The forms that a kind accepts, preferred ones first. -/
def Kind.forms : Kind → List Form
  | .string => [.quoted, .plain]
  | .int => [.digits, .plain]
  | .bool => [.truth, .plain]
  | .float => [.decimals, .plain]

/-- A quoted literal; what is between the quotes has no escapes. -/
def quotedLiteral? : List Char → Option (List Char × List Char)
  | '"' :: cs =>
    match cs.dropWhile (· != '"') with
    | q :: rest => some ('"' :: (cs.takeWhile (· != '"') ++ [q]), rest)
    | [] => none
  | _ => none

def word? (w : String) (cs : List Char) : Option (List Char × List Char) :=
  (after? w.toList cs).map (w.toList, ·)

def isPlain (c : Char) : Bool := c != '(' && c != ')'

/-- The longest text of a form, and what follows it. -/
def Form.read? : Form → List Char → Option (List Char × List Char)
  | .quoted, cs => quotedLiteral? cs
  | .digits, cs => run? isWordDigit cs
  | .truth, cs => (word? "true" cs).or (word? "false" cs)
  | .decimals, cs => run? (fun c => isWordDigit c || c == '.') cs
  | .plain, cs => some (cs.takeWhile isPlain, cs.dropWhile isPlain)

/-- What follows the two parentheses that close a call. -/
def close? (cs : List Char) : Option (List Char) := after? "))".toList cs

/-- A value in the first of the forms that ends where the call closes. -/
def value? (forms : List Form) (cs : List Char) : Option (List Char × List Char) :=
  forms.findSome? fun f => (f.read? cs).bind fun (v, rest) => (close? rest).map (v, ·)

/-- The optional default and the end of the call. -/
def argument? (forms : List Form) : List Char → Option (Option Argument × List Char)
  | ',' :: cs =>
    (value? forms (cs.dropWhile isBlank)).map fun (v, rest) =>
      (some ⟨cs.takeWhile isBlank, v⟩, rest)
  | cs => (close? cs).map (none, ·)

/-! ## The call -/

/-- The container of a look-up: a dotted name in front of `.get` and a parenthesis. -/
def container? (cs : List Char) : Option (List Char × List Char) :=
  match before? ".get".toList (cs.takeWhile isDottedChar), cs.dropWhile isDottedChar with
  | some name, '(' :: rest => if isDotted name then some (name, rest) else none
  | _, _ => none

/-- The key of a look-up: one or more characters between double quotes. -/
def key? : List Char → Option (List Char × List Char)
  | '"' :: cs =>
    match cs.takeWhile (· != '"'), cs.dropWhile (· != '"') with
    | c :: key, _ :: rest => some (c :: key, rest)
    | _, _ => none
  | _ => none

/-- The call that a text starts with, its default being in one of `forms`. -/
def callIn? (k : Kind) (forms : List Form) (cs : List Char) : Option (Call × List Char) := do
  let rest ← after? (k.wrapper.toList ++ ['(']) cs
  let (container, rest) ← container? rest
  let (key, rest) ← key? rest
  let (argument, rest) ← argument? forms rest
  return (⟨container, key, argument⟩, rest)

/-- The call at a position; a wrapper that goes on a word is none. -/
def callAt? (k : Kind) (forms : List Form) : Recogniser Call := fun before cs =>
  if joinsWord before then none else (callIn? k forms cs).map Prod.fst

/-! ## The rules -/

/-- The rule of a kind: where its accessor is found and which defaults it reads. -/
structure Rule where
  kind : Kind
  lib : String
  forms : List Form
  deriving DecidableEq, Repr

def Rule.ofKind (lib : String) (k : Kind) : Rule := ⟨k, lib, k.forms⟩

def Rule.id (r : Rule) : String := r.kind.ruleId

def Rule.pieces (r : Rule) (cs : List Char) : List (Piece Call) :=
  Text.pieces (callAt? r.kind r.forms) (Call.written r.kind) none cs

def Rule.text (r : Rule) (cs : List Char) : List Char :=
  render (Call.typed r.lib r.kind) (r.pieces cs)

def Rule.fixes (r : Rule) (cs : List Char) : Nat := (finds (r.pieces cs)).length

/-- The rules of all kinds, in the order in which they are applied. -/
def rules (lib : String) : List Rule := Kind.all.map (Rule.ofKind lib)

end CastGuard.Lookup
