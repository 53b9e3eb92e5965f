/-
# `CastGuard.Downcast.Statement` — statements that end in a cast

Scripts narrow a loaded resource with `as`, which yields null without a word when the resource has
another type.  Three forms of statement are covered, each on a line of its own:

    var icon: Texture2D = load(path) as Texture2D
    return load(path) as ItemData
    self.icon = load(path) as Texture2D

The guarded spelling keeps the resource in a temporary of a general type and tests it:

    var _icon_res: Resource = load(path)
    var icon: Texture2D = _icon_res if _icon_res is Texture2D else null

This module has the two spellings of a statement, `written` and `guarded`.  The recogniser for the
first is in `CastGuard.Downcast.Rule`.
-/
import CastGuard.Text.Class

namespace CastGuard.Downcast

open CastGuard.Text

inductive Form where
  | declaration
  | returning
  | assignment
  deriving DecidableEq, Repr

/-- All forms, in the order in which their rules are applied. -/
def Form.all : List Form := [.declaration, .returning, .assignment]

def Form.ruleId : Form → String
  | .declaration => "cast.declaration"
  | .returning => "cast.return"
  | .assignment => "cast.assignment"

/-- The temporary of a form; a declaration's is named after the declared variable. -/
def Form.temporary : Form → Option (List Char) → List Char
  | .declaration, some name => '_' :: (name ++ "_res".toList)
  | .declaration, none => "_result_res".toList
  | .returning, _ => "_return_res".toList
  | .assignment, _ => "_loaded_res".toList

/-- Where the cast value goes. -/
inductive Destination where
  | variable (name type : List Char)
  | caller
  | target (name : List Char)
  deriving DecidableEq, Repr

def Destination.form : Destination → Form
  | .variable _ _ => .declaration
  | .caller => .returning
  | .target _ => .assignment

/-- The temporary that guards a value on its way to a destination. -/
def Destination.temporary : Destination → List Char
  | .variable name _ => Form.temporary .declaration (some name)
  | .caller => Form.temporary .returning none
  | .target _ => Form.temporary .assignment none

def Destination.written : Destination → List Char
  | .variable name type => "var ".toList ++ (name ++ (": ".toList ++ (type ++ " = ".toList)))
  | .caller => "return ".toList
  | .target name => name ++ " = ".toList

/-- A cast value at the end of a line, with the blanks behind it. -/
structure Cast where
  value : List Char
  type : List Char
  trailing : List Char
  deriving DecidableEq, Repr

structure Statement where
  indent : List Char
  destination : Destination
  cast : Cast
  deriving DecidableEq, Repr

def Cast.written (c : Cast) : List Char :=
  c.value ++ (" as ".toList ++ (c.type ++ c.trailing))

/-- The statement as scripts spell it. -/
def Statement.written (s : Statement) : List Char :=
  s.indent ++ (s.destination.written ++ s.cast.written)

/-- The line end between the two guarded lines: the one that the statement's own line has. -/
def Cast.lineEnd (c : Cast) : List Char :=
  if c.trailing.getLast? = some '\r' then ['\r', '\n'] else ['\n']

/-- What guarded statements refer to: the type of the temporary and the value for a failed test. -/
structure Guard where
  holder : String
  null : String
  deriving DecidableEq, Repr

/-- The line that holds the value in the temporary. -/
def Statement.holding (g : Guard) (s : Statement) : List Char :=
  s.indent ++ ("var ".toList ++ (s.destination.temporary ++ (": ".toList ++
    (g.holder.toList ++ (" = ".toList ++ trim s.cast.value)))))

/-- The line that tests the temporary. -/
def Statement.testing (g : Guard) (s : Statement) : List Char :=
  s.indent ++ (s.destination.written ++ (s.destination.temporary ++ (" if ".toList ++
    (s.destination.temporary ++ (" is ".toList ++ (s.cast.type ++ (" else ".toList ++
      (g.null.toList ++ s.cast.trailing))))))))

def Statement.guarded (g : Guard) (s : Statement) : List Char :=
  s.holding g ++ (s.cast.lineEnd ++ s.testing g)

/-- Whether a statement can be guarded: a variable must have the type that its value is cast to. -/
def Statement.consistent (s : Statement) : Bool :=
  match s.destination with
  | .variable _ type => type == s.cast.type
  | _ => true

end CastGuard.Downcast
