/-
# `CastGuard.Text.Word` — words, dotted names and identifiers

A word character is a letter, a mark, a decimal digit, connecting punctuation such as the
underscore, or a joiner, as far as the edition that words follow knows it.  A dotted name is a
sequence of words joined by single dots; scripts use them as containers and as assignment targets.

An identifier, such as emitted code may use for a name, starts with an underscore or a letter and
goes on with underscores, letters and numbers.  The class differs from that of word characters on
both sides: a superscript digit may stand in an identifier, a combining accent may not.
-/
import CastGuard.Text.Alphabetic
import CastGuard.Text.Parts

namespace CastGuard.Text

/-! ## Words -/

def connectorRanges : List (Nat × Nat) :=
  [(0x5f, 0x5f), (0x203f, 0x2040), (0x2054, 0x2054), (0xfe33, 0xfe34), (0xfe4d, 0xfe4f),
   (0xff3f, 0xff3f)]

def joinerRanges : List (Nat × Nat) := [(0x200c, 0x200d)]

def isWord (c : Char) : Bool :=
  (isAlphabetic c || isMark c || isDecimalDigit c || inRanges connectorRanges c.toNat
    || inRanges joinerRanges c.toNat) && !isRecent c

def isWordDigit (c : Char) : Bool := isDecimalDigit c && !isRecent c

def isDottedChar (c : Char) : Bool := isWord c || c == '.'

/-- One or more words, joined by single dots.  A dot is no word character, so the reading is
unambiguous. -/
def isDotted : List Char → Bool
  | [] => false
  | [c] => isWord c
  | c :: d :: cs => isWord c && if d == '.' then isDotted cs else isDotted (d :: cs)

/-- Whether the character before a position, if any, keeps a word from starting there. -/
def joinsWord : Option Char → Bool
  | none => false
  | some c => isWord c

/-! ## Identifiers -/

def startsIdentifier (c : Char) : Bool := c == '_' || isAlphabetic c

def continuesIdentifier (c : Char) : Bool := c == '_' || isAlphabetic c || isNumber c

def isIdentifier : List Char → Bool
  | [] => false
  | c :: cs => startsIdentifier c && cs.all continuesIdentifier

def isDottedIdentifier (cs : List Char) : Bool := (parts '.' cs).all isIdentifier

end CastGuard.Text
