/-
# `CastGuard.Lookup.Call` — converted dictionary look-ups

Scripts read untyped dictionaries by wrapping a look-up in a conversion:

    str(data.get("name"))        int(data.stats.get("hp", 10))

Such a call has a wrapper, which fixes the kind of value, a container, a key and perhaps a default.
The typed accessor of the same kind takes the three as plain arguments and needs no conversion:

    DictUtils.get_string(data, "name", "")        DictUtils.get_int(data.stats, "hp", 10)

This module has the two spellings of a call, `written` and `typed`.  The recogniser for the first
is in `CastGuard.Lookup.Rule`.
-/

namespace CastGuard.Lookup

inductive Kind where
  | string
  | int
  | bool
  | float
  deriving DecidableEq, Repr

/-- All kinds, in the order in which their rules are applied. -/
def Kind.all : List Kind := [.string, .int, .bool, .float]

/-- The conversion that scripts wrap around a look-up. -/
def Kind.wrapper : Kind → String
  | .string => "str"
  | .int => "int"
  | .bool => "bool"
  | .float => "float"

def Kind.accessor : Kind → String
  | .string => "get_string"
  | .int => "get_int"
  | .bool => "get_bool"
  | .float => "get_float"

/-- The default that is passed when a look-up has none. -/
def Kind.fallback : Kind → String
  | .string => "\"\""
  | .int => "0"
  | .bool => "false"
  | .float => "0.0"

def Kind.ruleId : Kind → String
  | .string => "conversion.str"
  | .int => "conversion.int"
  | .bool => "conversion.bool"
  | .float => "conversion.float"

/-- A default argument: its value and the blanks between the comma and the value. -/
structure Argument where
  blanks : List Char
  value : List Char
  deriving DecidableEq, Repr

/-- A converted look-up, without its wrapper. -/
structure Call where
  container : List Char
  key : List Char
  argument : Option Argument
  deriving DecidableEq, Repr

def Argument.written (a : Argument) : List Char := ',' :: (a.blanks ++ a.value)

def writtenArgument : Option Argument → List Char
  | none => []
  | some a => a.written

def Call.written (k : Kind) (c : Call) : List Char :=
  k.wrapper.toList ++ '(' :: (c.container ++ (".get(\"".toList ++ (c.key ++
    '"' :: (writtenArgument c.argument ++ "))".toList))))

/-- The default that the typed accessor receives: the one given, unless it is empty. -/
def Call.default (k : Kind) (c : Call) : List Char :=
  match c.argument with
  | none => k.fallback.toList
  | some a => if a.value.isEmpty then k.fallback.toList else a.value

/-- The call of the typed accessor, found in the library `lib`. -/
def Call.typed (lib : String) (k : Kind) (c : Call) : List Char :=
  lib.toList ++ '.' :: (k.accessor.toList ++ '(' :: (c.container ++ (", \"".toList ++ (c.key ++
    ("\", ".toList ++ (c.default k ++ [')']))))))

end CastGuard.Lookup
