/-
# `CastGuard.Toml.Quoted` — texts in quotes

Four ways to write a text: in double quotes with escapes or in single quotes without, on one line
or, with the quotes tripled, over several.  Control characters other than the tab have no place in
any of them; line ends only in the last two.

Every reader here starts behind the opening quotes and goes through the text once.
-/

namespace CastGuard.Toml

/-- Characters that texts and comments may hold as they are. -/
def isPlain (c : Char) : Bool := c == '\t' || (' ' ≤ c && c != '\x7f')

/-- The character of an escape that is one letter. -/
def shortEscape? : Char → Option Char
  | 'b' => some '\x08'
  | 't' => some '\t'
  | 'n' => some '\n'
  | 'f' => some '\x0c'
  | 'r' => some '\r'
  | 'e' => some '\x1b'
  | '"' => some '"'
  | '\\' => some '\\'
  | _ => none

/-- The number of hexadecimal digits that an escape is followed by. -/
def hexEscape? : Char → Option Nat
  | 'x' => some 2
  | 'u' => some 4
  | 'U' => some 8
  | _ => none

def hexDigit? (c : Char) : Option Nat :=
  if '0' ≤ c ∧ c ≤ '9' then some (c.toNat - '0'.toNat)
  else if 'a' ≤ c ∧ c ≤ 'f' then some (c.toNat - 'a'.toNat + 10)
  else if 'A' ≤ c ∧ c ≤ 'F' then some (c.toNat - 'A'.toNat + 10)
  else none

def charOfCode? (n : Nat) : Option Char := if n.isValidChar then some (Char.ofNat n) else none

/-- Where a reader is within an escape. -/
inductive Escape where
  /-- in none -/
  | outside
  /-- behind the backslash -/
  | opened
  /-- before the given number of hexadecimal digits, with the value of those read -/
  | digits (left value : Nat)
  /-- among the blanks after a backslash at the end of a line; whether the line has ended -/
  | folded (lineEnded : Bool)
  deriving DecidableEq, Repr

/-- What a character within an escape leads to: perhaps a character of the text, and the next
state. -/
def Escape.next? : Escape → Char → Option (List Char × Escape)
  | .opened, c =>
    match shortEscape? c, hexEscape? c with
    | some d, _ => some ([d], .outside)
    | none, some n => some ([], .digits n 0)
    | none, none => none
  | .digits left value, c => do
    let d ← hexDigit? c
    if left ≤ 1 then
      let e ← charOfCode? (value * 16 + d)
      return ([e], .outside)
    else return ([], .digits (left - 1) (value * 16 + d))
  | _, _ => none

def basic? (e : Escape) : List Char → Option (List Char × List Char)
  | [] => none
  | c :: cs =>
    if e = .outside then
      if c = '"' then some ([], cs)
      else if c = '\\' then basic? .opened cs
      else if isPlain c then (basic? .outside cs).map fun (t, rest) => (c :: t, rest)
      else none
    else match e.next? c with
      | none => none
      | some (out, e) => (basic? e cs).map fun (t, rest) => (out ++ t, rest)

def literal? : List Char → Option (List Char × List Char)
  | [] => none
  | c :: cs =>
    if c = '\'' then some ([], cs)
    else if isPlain c then (literal? cs).map fun (t, rest) => (c :: t, rest)
    else none

/-- Closing quotes of a text over several lines: three of them, behind up to two that still belong
to the text. -/
def closing? (q : Char) : List Char → Option (List Char × List Char)
  | a :: b :: c :: cs =>
    if a = q ∧ b = q ∧ c = q then
      match cs with
      | d :: e :: rest =>
        if d = q ∧ e = q then some ([q, q], rest)
        else if d = q then some ([q], e :: rest)
        else some ([], d :: e :: rest)
      | [d] => if d = q then some ([q], []) else some ([], [d])
      | [] => some ([], [])
    else none
  | _ => none

def multiLiteral? (cs : List Char) : Option (List Char × List Char) :=
  match closing? '\'' cs with
  | some out => some out
  | none =>
    match cs with
    | [] => none
    | '\r' :: '\n' :: cs => (multiLiteral? cs).map fun (t, rest) => ('\r' :: '\n' :: t, rest)
    | c :: cs =>
      if isPlain c || c = '\n' then (multiLiteral? cs).map fun (t, rest) => (c :: t, rest)
      else none

/-- Whether a backslash is followed by the end of its line. -/
def foldsLine : List Char → Bool
  | ' ' :: _ => true
  | '\t' :: _ => true
  | '\n' :: _ => true
  | '\r' :: '\n' :: _ => true
  | _ => false

/-- A text in tripled double quotes.  A backslash at the end of a line takes away all blanks and
line ends up to the next character. -/
def multiBasic? (e : Escape) (cs : List Char) : Option (List Char × List Char) :=
  match cs with
  | [] => none
  | c :: rest =>
    match e with
    | .folded ended =>
      if c = ' ' ∨ c = '\t' then multiBasic? (.folded ended) rest
      else if c = '\n' then multiBasic? (.folded true) rest
      else if c = '\r' ∧ rest.head? = some '\n' then multiBasic? (.folded ended) rest
      else if ended then multiPlain? c rest
      else none
    | .outside => multiPlain? c rest
    | e =>
      if e = .opened ∧ foldsLine (c :: rest) then
        if c = ' ' ∨ c = '\t' then multiBasic? (.folded false) rest
        else if c = '\n' then multiBasic? (.folded true) rest
        else multiBasic? (.folded false) rest
      else match e.next? c with
        | none => none
        | some (out, e) => (multiBasic? e rest).map fun (t, rest) => (out ++ t, rest)
where
  /-- the text from a character on that is in no escape -/
  multiPlain? (c : Char) (rest : List Char) : Option (List Char × List Char) :=
    match closing? '"' (c :: rest) with
    | some out => some out
    | none =>
      if c = '\\' then multiBasic? .opened rest
      else if isPlain c ∨ c = '\n' ∨ (c = '\r' ∧ rest.head? = some '\n') then
        (multiBasic? .outside rest).map fun (t, rest) => (c :: t, rest)
      else none

def dropLineEnd : List Char → List Char
  | '\n' :: cs => cs
  | '\r' :: '\n' :: cs => cs
  | cs => cs

def string? : List Char → Option (String × List Char)
  | '"' :: '"' :: '"' :: cs =>
    (multiBasic? .outside (dropLineEnd cs)).map fun (t, rest) => (String.ofList t, rest)
  | '\'' :: '\'' :: '\'' :: cs =>
    (multiLiteral? (dropLineEnd cs)).map fun (t, rest) => (String.ofList t, rest)
  | '"' :: cs => (basic? .outside cs).map fun (t, rest) => (String.ofList t, rest)
  | '\'' :: cs => (literal? cs).map fun (t, rest) => (String.ofList t, rest)
  | _ => none

end CastGuard.Toml
