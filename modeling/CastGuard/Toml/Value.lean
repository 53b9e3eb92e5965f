/-
# `CastGuard.Toml.Value` — the values of a TOML document

Settings are texts, lists of texts and tables.  All other values (numbers, truth values, dates) may
stand in a document but are never a setting, so they are kept by their spelling.

A table remembers how it came about, because that decides who may add to it: a table made by the
path of a header may still get a header of its own, one made by dotted keys may only get further
dotted keys, and one in braces is complete.
-/

namespace CastGuard.Toml

/-- How a table came about. -/
inductive Origin where
  /-- by a header of its own -/
  | header
  /-- as a step on the path of a header -/
  | implied
  /-- as a step of a dotted key -/
  | dotted
  /-- in braces -/
  | inline
  deriving DecidableEq, Repr

inductive Value where
  | string (s : String)
  | scalar (spelling : String)
  | array (items : List Value)
  /-- tables that share a doubly bracketed header -/
  | tables (items : List (List (String × Value)))
  | table (origin : Origin) (entries : List (String × Value))

abbrev Entries := List (String × Value)

namespace Entries

def get? (es : Entries) (key : String) : Option Value := (es.find? (·.1 == key)).map Prod.snd

def set (es : Entries) (key : String) (v : Value) : Entries :=
  match es with
  | [] => [(key, v)]
  | (k, w) :: es => if k == key then (k, v) :: es else (k, w) :: set es key v

def insert? (es : Entries) (key : String) (v : Value) : Option Entries :=
  match es.get? key with
  | some _ => none
  | none => some (es ++ [(key, v)])

/-- Changes the last of some tables. -/
def changeLast? (f : Entries → Option Entries) : List Entries → Option (List Entries)
  | [] => none
  | [es] => (f es).map ([·])
  | es :: more => (changeLast? f more).map (es :: ·)

/-- Changes the table that a path of headers leads to.  Missing tables on the way are made, and of
tables that share a header the last one is meant. -/
def atPath? (f : Entries → Option Entries) : List String → Entries → Option Entries
  | [], es => f es
  | key :: path, es =>
    match es.get? key with
    | none => (atPath? f path []).map fun t => es.set key (.table .implied t)
    | some (.table .inline _) => none
    | some (.table o t) => (atPath? f path t).map fun t => es.set key (.table o t)
    | some (.tables ts) => (changeLast? (atPath? f path) ts).map fun ts => es.set key (.tables ts)
    | some _ => none

/-- Gives a key of a table a header of its own. -/
def openTable? (key : String) (es : Entries) : Option Entries :=
  match es.get? key with
  | none => some (es.set key (.table .header []))
  | some (.table .implied t) => some (es.set key (.table .header t))
  | some _ => none

/-- Adds one more table under a doubly bracketed header. -/
def openTables? (key : String) (es : Entries) : Option Entries :=
  match es.get? key with
  | none => some (es.set key (.tables [[]]))
  | some (.tables ts) => some (es.set key (.tables (ts ++ [[]])))
  | some _ => none

/-- Adds a value under a dotted key.  The tables on the way are made by dotted keys, now or
before. -/
def insertDotted? (v : Value) : List String → Entries → Option Entries
  | [], _ => none
  | [key], es => es.insert? key v
  | key :: path, es =>
    match es.get? key with
    | none => (insertDotted? v path []).map fun t => es.set key (.table .dotted t)
    | some (.table .dotted t) =>
      (insertDotted? v path t).map fun t => es.set key (.table .dotted t)
    | some _ => none

end Entries

end CastGuard.Toml
