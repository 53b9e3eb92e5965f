/-
# `CastGuard.Glob.Pattern` — patterns for file names

A pattern is a text in which `?` stands for any character, `*` for any text, and a bracketed class
for one of its characters or, after `!`, for any other.  Two stars that fill a whole component of a
path stand for directories at any depth.  A pattern that breaks these rules is refused with the
place and the reason.
-/
import CastGuard.Text.Parts

namespace CastGuard.Glob

inductive Reason where
  | stars
  | recursion
  | range
  deriving DecidableEq, Repr

def Reason.message : Reason → String
  | .stars => "wildcards are either regular `*` or recursive `**`"
  | .recursion => "recursive wildcards must form a single path component"
  | .range => "invalid range pattern"

/-- A refused pattern: the place, counted in characters, and the reason. -/
structure PatternError where
  position : Nat
  reason : Reason
  deriving DecidableEq, Repr

def PatternError.message (e : PatternError) : String :=
  "Pattern syntax error near position " ++ toString e.position ++ ": " ++ e.reason.message

/-- A member of a class: one character or a range of them. -/
inductive Member where
  | single (c : Char)
  | range (first last : Char)
  deriving DecidableEq, Repr

inductive Token where
  | char (c : Char)
  | anyChar
  | anyText
  | anyDepth
  | oneOf (ms : List Member)
  | noneOf (ms : List Member)
  deriving DecidableEq, Repr

/-! ## Reading a pattern -/

def members : List Char → List Member
  | a :: '-' :: b :: cs => .range a b :: members cs
  | a :: cs => .single a :: members cs
  | [] => []

/-- The characters of a class and what follows its bracket.  The first character always belongs to
the class, even if it is a bracket. -/
def classBody? : List Char → Option (List Char × List Char)
  | [] => none
  | c :: cs =>
    match cs.dropWhile (· != ']') with
    | [] => none
    | _ :: rest => some (c :: cs.takeWhile (· != ']'), rest)

/-- A class behind its opening bracket. -/
def class? : List Char → Option (Token × List Char)
  | '!' :: cs => (classBody? cs).map fun (body, rest) => (.noneOf (members body), rest)
  | cs => (classBody? cs).map fun (body, rest) => (.oneOf (members body), rest)

/-- Stars at a place: how many they may be depends on their number and surroundings.  `before` is
the character in front of them, `stars` their number, `rest` what follows. -/
def stars? (position : Nat) (before : Option Char) (stars : Nat) (rest : List Char) :
    Except PatternError (Token × List Char) :=
  if 2 < stars then .error ⟨position + 2, .stars⟩
  else if stars < 2 then .ok (.anyText, rest)
  else if before ≠ none ∧ before ≠ some '/' then .error ⟨position - 1, .recursion⟩
  else match rest with
    | [] => .ok (.anyDepth, [])
    | '/' :: rest => .ok (.anyDepth, rest)
    | _ => .error ⟨position + 2, .recursion⟩

def token? (position : Nat) (before : Option Char) : List Char →
    Option (Except PatternError (Token × List Char))
  | [] => none
  | '?' :: cs => some (.ok (.anyChar, cs))
  | '*' :: cs =>
    some (stars? position before (1 + (cs.takeWhile (· == '*')).length) (cs.dropWhile (· == '*')))
  | '[' :: cs =>
    match class? cs with
    | some (t, rest) => some (.ok (t, rest))
    | none => some (.error ⟨position, .range⟩)
  | c :: cs => some (.ok (.char c, cs))

/-- The pieces of a pattern from a position on, given the character before it. -/
def tokensFrom (position : Nat) (before : Option Char) (cs : List Char) :
    Except PatternError (List Token) :=
  match token? position before cs with
  | none => .ok []
  | some (.error e) => .error e
  | some (.ok (t, rest)) =>
    if _h : rest.length < cs.length then
      let read := cs.take (cs.length - rest.length)
      match tokensFrom (position + read.length) read.getLast? rest with
      | .error e => .error e
      | .ok ts => .ok (t :: ts)
    else .ok [t]
termination_by cs.length

def tokens (cs : List Char) : Except PatternError (List Token) := tokensFrom 0 none cs

/-- The pattern that matches a text and nothing else. -/
def escape (cs : List Char) : List Char :=
  cs.flatMap fun c => if c ∈ ['?', '*', '[', ']'] then ['[', c, ']'] else [c]

/-! ## Matching names -/

def Member.holds (c : Char) : Member → Bool
  | .single d => c = d
  | .range first last => first ≤ c && c ≤ last

/-- Whether a piece that stands for one character matches it. -/
def Token.matchesChar (c : Char) : Token → Bool
  | .char d => c = d
  | .anyChar => true
  | .oneOf ms => ms.any (Member.holds c)
  | .noneOf ms => !ms.any (Member.holds c)
  | .anyText => false
  | .anyDepth => false

/-- How pieces compare with a name.  Two ways to fail are told apart: a star may try again further
on after a difference, but not when the name is at its end with pieces left over. -/
inductive Comparison where
  | same
  | different
  | tooShort
  deriving DecidableEq, Repr

/-- Compares pieces with a name.  Stars are tried short first. -/
def compareName : List Token → List Char → Comparison
  | [], [] => .same
  | [], _ :: _ => .different
  | .anyText :: ts, [] => compareName ts []
  | .anyText :: ts, c :: cs =>
    match compareName ts (c :: cs) with
    | .different => compareName (.anyText :: ts) cs
    | outcome => outcome
  | _ :: _, [] => .tooShort
  | t :: ts, c :: cs => if t.matchesChar c then compareName ts cs else .different
termination_by ts cs => ts.length + cs.length

def matchesName (ts : List Token) (cs : List Char) : Bool := compareName ts cs = .same

/-! ## Patterns for paths -/

/-- One component of a pattern for paths. -/
inductive Segment where
  /-- a name without wildcards -/
  | literal (name : String)
  /-- names that match -/
  | wildcard (ts : List Token)
  /-- directories at any depth -/
  | descend
  deriving DecidableEq, Repr

/-- The text of a pattern that has no wildcards. -/
def literal? : List Token → Option (List Char)
  | [] => some []
  | .char c :: ts => (literal? ts).map (c :: ·)
  | _ => none

/-- The component that some pieces make up. -/
def Segment.ofTokens (ts : List Token) : Segment :=
  if .anyDepth ∈ ts then .descend
  else match literal? ts with
    | some cs => .literal (String.ofList cs)
    | none => .wildcard ts

/-- A component of a pattern, read on its own. -/
def Segment.parse (cs : List Char) : Except PatternError Segment := (tokens cs).map .ofTokens

/-- A pattern for paths: where the search starts and the components to follow. -/
structure PathPattern where
  absolute : Bool
  segments : List Segment
  deriving DecidableEq, Repr

/-- A pattern for paths.  It is checked as a whole first, then component by component. -/
def PathPattern.parse (cs : List Char) : Except PatternError PathPattern := do
  let _ ← tokens cs
  let absolute := cs.head? = some '/'
  let segments ← (Text.parts '/' (if absolute then cs.drop 1 else cs)).mapM Segment.parse
  return ⟨absolute, segments⟩

end CastGuard.Glob
