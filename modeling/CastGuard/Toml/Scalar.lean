/-
# `CastGuard.Toml.Scalar` — numbers, truth values and dates

No setting is one of these, so reading them means no more than telling whether their spelling can
be one.  Dates are checked to the day.  Of a number only the outline is checked: the letter of its
base, its leading zeros, its point and exponent, and that each underscore joins digits.
-/
import CastGuard.Text.Parts

namespace CastGuard.Toml

def isDigit (c : Char) : Bool := '0' ≤ c && c ≤ '9'

def isBinaryDigit (c : Char) : Bool := c == '0' || c == '1'

def isOctalDigit (c : Char) : Bool := '0' ≤ c && c ≤ '7'

def isHexDigit (c : Char) : Bool :=
  isDigit c || ('a' ≤ c && c ≤ 'f') || ('A' ≤ c && c ≤ 'F')

/-- Characters that a scalar is spelled with: all but those that mean something between values. -/
def isScalarChar (c : Char) : Bool := !("=,[]\x7b\x7d# \t\r\n".toList.contains c)

/-! ### Digits and underscores -/

/-- One or more digits, with single underscores between them. -/
def isDigits (digit : Char → Bool) : List Char → Bool
  | [] => false
  | [c] => digit c
  | c :: '_' :: cs => digit c && isDigits digit cs
  | c :: cs => digit c && isDigits digit cs

/-- Digits with underscores anywhere. -/
def isLooseDigits (cs : List Char) : Bool :=
  cs.all (fun c => isDigit c || c == '_') && cs.any isDigit

def opensWith (digit : Char → Bool) (cs : List Char) : Bool :=
  match cs.head? with
  | some c => digit c
  | none => false

def closesWith (digit : Char → Bool) (cs : List Char) : Bool :=
  match cs.getLast? with
  | some c => digit c
  | none => false

/-- Whether the parts of a number behind its first underscore are joined by digits. -/
def areJoined (digit : Char → Bool) : List (List Char) → Bool
  | [] => true
  | [p] => opensWith digit p
  | p :: ps => opensWith digit p && closesWith digit p && areJoined digit ps

/-- Whether every underscore of a number has digits beside it.  A single character before the first
one may also be a sign. -/
def joinsDigits (digit : Char → Bool) (cs : List Char) : Bool :=
  match Text.parts '_' cs with
  | [] => true
  | [_] => true
  | p :: ps => !p.isEmpty && (p.length == 1 || closesWith digit p) && areJoined digit ps

def unsigned : List Char → List Char
  | '+' :: cs => cs
  | '-' :: cs => cs
  | cs => cs

/-! ### Numbers -/

/-- The letters that make a number one with a fraction or an exponent. -/
def isFloatMark (c : Char) : Bool := c == '.' || c == 'e' || c == 'E'

/-- Digits behind the letter of a base; there may be none. -/
def isBased (digit : Char → Bool) (cs : List Char) : Bool := cs.isEmpty || isDigits digit cs

/-- Decimal numbers, which have no leading zero.  Behind an underscore they are read as loosely as
numbers of the other bases. -/
def isDecimal (cs : List Char) : Bool :=
  let value := unsigned cs
  match value.dropWhile isDigit with
  | [] => value == ['0'] || (opensWith isDigit value && value.head? != some '0')
  | '_' :: rest =>
    value.head? != some '0' && !rest.any isFloatMark && joinsDigits isHexDigit cs
  | _ => false

def isInteger (cs : List Char) : Bool :=
  match cs with
  | '0' :: 'x' :: cs => isBased isHexDigit cs
  | '0' :: 'o' :: cs => isBased isOctalDigit cs
  | '0' :: 'b' :: cs => isBased isBinaryDigit cs
  | cs => isDecimal cs

/-- The part of a number before its point; of several digits the first is no zero. -/
def isMantissa (cs : List Char) : Bool :=
  isLooseDigits cs && (cs.countP isDigit == 1 || cs.head? != some '0')

/-- An exponent behind its letter. -/
def isExponent (cs : List Char) : Bool := isLooseDigits (unsigned cs)

def isFraction (cs : List Char) : Bool :=
  let isE := fun c => c == 'e' || c == 'E'
  match cs.dropWhile (!isE ·) with
  | [] => isLooseDigits cs
  | _ :: exponent => isLooseDigits (cs.takeWhile (!isE ·)) && isExponent exponent

/-- Numbers with a fraction or an exponent, and the two that are neither. -/
def isFloat (cs : List Char) : Bool :=
  let value := unsigned cs
  value == "inf".toList || value == "nan".toList ||
    (joinsDigits isDigit cs && isMantissa (value.takeWhile (!isFloatMark ·)) &&
      match value.dropWhile (!isFloatMark ·) with
      | '.' :: fraction => isFraction fraction
      | _ :: exponent => isExponent exponent
      | [] => false)

/-! ### Dates and times -/

/-- The value of a number of exactly `n` digits. -/
def number? (n : Nat) (cs : List Char) : Option Nat :=
  if cs.length = n ∧ cs.all isDigit then
    some (cs.foldl (fun v c => v * 10 + (c.toNat - '0'.toNat)) 0)
  else none

/-- Whether a number of `n` digits lies between two bounds. -/
def isNumberIn (n low high : Nat) (cs : List Char) : Bool :=
  match number? n cs with
  | some v => low ≤ v && v ≤ high
  | none => false

def daysIn (year month : Nat) : Nat :=
  if month = 2 then
    if year % 4 = 0 ∧ (year % 100 ≠ 0 ∨ year % 400 = 0) then 29 else 28
  else if month ∈ [4, 6, 9, 11] then 30
  else 31

def isDate (cs : List Char) : Bool :=
  match Text.parts '-' cs with
  | [y, m, d] =>
    match number? 4 y, number? 2 m with
    | some year, some month => 1 ≤ month && month ≤ 12 && isNumberIn 2 1 (daysIn year month) d
    | _, _ => false
  | _ => false

def isSeconds (cs : List Char) : Bool :=
  match Text.parts '.' cs with
  | [s] => isNumberIn 2 0 60 s
  | [s, f] => isNumberIn 2 0 60 s && !f.isEmpty && f.all isDigit
  | _ => false

def isTime (cs : List Char) : Bool :=
  match Text.parts ':' cs with
  | [h, m] => isNumberIn 2 0 23 h && isNumberIn 2 0 59 m
  | [h, m, s] => isNumberIn 2 0 23 h && isNumberIn 2 0 59 m && isSeconds s
  | _ => false

def isOffsetTime (cs : List Char) : Bool :=
  let sign := fun c => c == '+' || c == '-'
  match cs.reverse with
  | 'Z' :: time => isTime time.reverse
  | 'z' :: time => isTime time.reverse
  | _ =>
    match cs.dropWhile (!sign ·) with
    | _ :: offset =>
      isTime (cs.takeWhile (!sign ·)) &&
        match Text.parts ':' offset with
        | [h, m] => isNumberIn 2 0 23 h && isNumberIn 2 0 59 m
        | _ => false
    | [] => false

def isDateTime (cs : List Char) : Bool :=
  isDate cs || isTime cs ||
    (isDate (cs.take 10) &&
      match cs.drop 10 with
      | c :: time => (c == 'T' || c == 't' || c == ' ') && (isTime time || isOffsetTime time)
      | [] => false)

/-! ### All scalars -/

def isScalar (cs : List Char) : Bool :=
  cs == "true".toList || cs == "false".toList || isInteger cs || isFloat cs || isDateTime cs

/-- A scalar in front of a text.  A blank may stand between a date and a time. -/
def scalar? (cs : List Char) : Option (String × List Char) :=
  let word := cs.takeWhile isScalarChar
  let rest := cs.dropWhile isScalarChar
  let (spelling, rest) :=
    match isDate word, rest with
    | true, ' ' :: d :: more =>
      if isDigit d then
        (word ++ ' ' :: (d :: more).takeWhile isScalarChar, (d :: more).dropWhile isScalarChar)
      else (word, rest)
    | _, _ => (word, rest)
  if isScalar spelling then some (String.ofList spelling, rest) else none

end CastGuard.Toml
