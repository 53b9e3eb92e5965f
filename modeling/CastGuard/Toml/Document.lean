/-
# `CastGuard.Toml.Document` — reading a document

A document is a sequence of lines: keys with values, and headers that say which table the keys
below them belong to.  Values may span lines inside brackets and braces, where comments and a comma
at the end are allowed as well.

Readers that nest or repeat are given fuel.  Each of them reads at least one character before it
calls another, so the length of the text is always enough.  How deep values nest is bounded apart
from that, by the format and not by the text.
-/
import CastGuard.Toml.Quoted
import CastGuard.Toml.Scalar
import CastGuard.Toml.Value

namespace CastGuard.Toml

/-! ## Blanks and line ends -/

def isSpace (c : Char) : Bool := c == ' ' || c == '\t'

def skipSpace (cs : List Char) : List Char := cs.dropWhile isSpace

def skipLines? (inComment : Bool) : List Char → Option (List Char)
  | [] => some []
  | '\n' :: cs => skipLines? false cs
  | '\r' :: '\n' :: cs => skipLines? false cs
  | c :: cs =>
    if inComment then if isPlain c then skipLines? true cs else none
    else if isSpace c then skipLines? false cs
    else if c = '#' then skipLines? true cs
    else some (c :: cs)

/-- Skips to the next line, over nothing but blanks and a comment. -/
def endLine? (inComment : Bool) : List Char → Option (List Char)
  | [] => some []
  | '\n' :: cs => some cs
  | '\r' :: '\n' :: cs => some cs
  | c :: cs =>
    if inComment then if isPlain c then endLine? true cs else none
    else if isSpace c then endLine? false cs
    else if c = '#' then endLine? true cs
    else none

/-! ## Keys -/

def isBareKey (c : Char) : Bool := c.isAlphanum || c == '_' || c == '-'

def keyPart? : List Char → Option (String × List Char)
  | '"' :: cs => (basic? .outside cs).map fun (t, rest) => (String.ofList t, rest)
  | '\'' :: cs => (literal? cs).map fun (t, rest) => (String.ofList t, rest)
  | cs =>
    if (cs.takeWhile isBareKey).isEmpty then none
    else some (String.ofList (cs.takeWhile isBareKey), cs.dropWhile isBareKey)

/-- The parts of a key, with dots between them. -/
def keyParts? : Nat → List Char → Option (List String × List Char)
  | 0, _ => none
  | fuel + 1, cs => do
    let (part, cs) ← keyPart? (skipSpace cs)
    match skipSpace cs with
    | '.' :: cs =>
      let (parts, rest) ← keyParts? fuel cs
      return (part :: parts, rest)
    | rest => return ([part], rest)

/-- How deep arrays and tables in braces may nest, and how many parts a key may have. -/
def maxDepth : Nat := 80

/-- A key that does not go too deep. -/
def key? (fuel : Nat) (cs : List Char) : Option (List String × List Char) :=
  (keyParts? fuel cs).filter fun (parts, _) => parts.length ≤ maxDepth

/-! ## Values -/

mutual

/-- A value in which brackets and braces nest `depth` deep at most. -/
def value? : Nat → Nat → List Char → Option (Value × List Char)
  | 0, _, _ => none
  | fuel + 1, depth, cs =>
    match cs, depth with
    | '[' :: _, 0 => none
    | '\x7b' :: _, 0 => none
    | '[' :: cs, depth + 1 => (items? fuel depth cs).map fun (vs, rest) => (.array vs, rest)
    | '\x7b' :: cs, depth + 1 =>
      (pairs? fuel depth [] cs).map fun (es, rest) => (.table .inline es, rest)
    | cs, _ =>
      match string? cs with
      | some (s, rest) => some (.string s, rest)
      | none => (scalar? cs).map fun (s, rest) => (.scalar s, rest)

/-- The items of an array, up to its bracket. -/
def items? : Nat → Nat → List Char → Option (List Value × List Char)
  | 0, _, _ => none
  | fuel + 1, depth, cs => do
    match ← skipLines? false cs with
    | ']' :: rest => return ([], rest)
    | cs =>
      let (v, cs) ← value? fuel depth cs
      match ← skipLines? false cs with
      | ',' :: cs =>
        let (vs, rest) ← items? fuel depth cs
        return (v :: vs, rest)
      | ']' :: rest => return ([v], rest)
      | _ => none

/-- The entries of a table in braces, up to its brace, added to `es`.  Lines may end anywhere
between a key, its equals sign, its value and the comma. -/
def pairs? : Nat → Nat → Entries → List Char → Option (Entries × List Char)
  | 0, _, _, _ => none
  | fuel + 1, depth, es, cs => do
    match ← skipLines? false cs with
    | '\x7d' :: rest => return (es, rest)
    | cs =>
      let (key, cs) ← key? fuel cs
      match ← skipLines? false cs with
      | '=' :: cs =>
        let (v, cs) ← value? fuel depth (← skipLines? false cs)
        let es ← es.insertDotted? v key
        match ← skipLines? false cs with
        | ',' :: cs => pairs? fuel depth es cs
        | '\x7d' :: rest => return (es, rest)
        | _ => none
      | _ => none

end

/-! ## Lines -/

/-- What is read so far: all entries, and the path of the header that is in force. -/
structure Draft where
  entries : Entries
  section_ : List String

/-- Puts a header in force. -/
def Draft.open? (d : Draft) (add : String → Entries → Option Entries) (path : List String) :
    Option Draft :=
  match path.getLast? with
  | none => none
  | some key => (d.entries.atPath? (add key) path.dropLast).map (⟨·, path⟩)

/-- Adds a value under the header that is in force. -/
def Draft.insert? (d : Draft) (key : List String) (v : Value) : Option Draft :=
  (d.entries.atPath? (Entries.insertDotted? v key) d.section_).map (⟨·, d.section_⟩)

/-- One header, or one key with its value. -/
def line? (fuel : Nat) (d : Draft) : List Char → Option (Draft × List Char)
  | '[' :: '[' :: cs => do
    let (path, cs) ← key? fuel cs
    match cs with
    | ']' :: ']' :: rest => (d.open? Entries.openTables? path).map (·, rest)
    | _ => none
  | '[' :: cs => do
    let (path, cs) ← key? fuel cs
    match cs with
    | ']' :: rest => (d.open? Entries.openTable? path).map (·, rest)
    | _ => none
  | cs => do
    let (key, cs) ← key? fuel cs
    match cs with
    | '=' :: cs =>
      let (v, rest) ← value? fuel maxDepth (skipSpace cs)
      (d.insert? key v).map (·, rest)
    | _ => none

def lines? : Nat → Draft → List Char → Option Draft
  | 0, _, _ => none
  | fuel + 1, d, cs => do
    match ← skipLines? false cs with
    | [] => return d
    | cs =>
      let (d, cs) ← line? (fuel + 1) d cs
      let cs ← endLine? false cs
      lines? fuel d cs

/-- Without a byte order mark at the very front. -/
def dropMark : List Char → List Char
  | '\ufeff' :: cs => cs
  | cs => cs

def parse? (text : String) : Option Entries :=
  let cs := dropMark text.toList
  (lines? (cs.length + 1) ⟨[], []⟩ cs).map Draft.entries

end CastGuard.Toml
