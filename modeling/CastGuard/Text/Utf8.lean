/-
# `CastGuard.Text.Utf8` — bytes as text

Names and contents of files are bytes; most are text in UTF-8, and some are not.  Decoding takes a
sequence of bytes apart into characters and faults, where a fault is the longest start of a
character that does not go on as it should, or a single byte that starts none.
-/

namespace CastGuard.Text

/-- What the first byte of a character says: the number of bytes to follow, its own bits, and the
bounds of the second byte. -/
structure Lead where
  following : Nat
  bits : Nat
  low : Nat
  high : Nat

/-- The reading of a first byte, if it can be one. -/
def lead? (b : Nat) : Option Lead :=
  if b < 0x80 then some ⟨0, b, 0x80, 0xbf⟩
  else if b < 0xc2 then none
  else if b < 0xe0 then some ⟨1, b - 0xc0, 0x80, 0xbf⟩
  else if b = 0xe0 then some ⟨2, 0, 0xa0, 0xbf⟩
  else if b = 0xed then some ⟨2, 0xd, 0x80, 0x9f⟩
  else if b < 0xf0 then some ⟨2, b - 0xe0, 0x80, 0xbf⟩
  else if b = 0xf0 then some ⟨3, 0, 0x90, 0xbf⟩
  else if b < 0xf4 then some ⟨3, b - 0xf0, 0x80, 0xbf⟩
  else if b = 0xf4 then some ⟨3, 4, 0x80, 0x8f⟩
  else none

/-- Reads `n` following bytes onto the value `v`, the first within the given bounds. -/
def following (n v low high : Nat) (bs : List UInt8) : Option Nat × List UInt8 :=
  match n, bs with
  | 0, bs => (some v, bs)
  | _ + 1, [] => (none, [])
  | n + 1, b :: bs =>
    if low ≤ b.toNat ∧ b.toNat ≤ high then following n (v * 64 + (b.toNat - 0x80)) 0x80 0xbf bs
    else (none, b :: bs)

theorem length_following_le (n v low high : Nat) (bs : List UInt8) :
    (following n v low high bs).2.length ≤ bs.length := by
  fun_induction following n v low high bs with
  | case1 => simp
  | case2 => simp
  | case3 v low high n b bs h ih => simp only [List.length_cons]; omega
  | case4 => simp

/-- The characters of a sequence of bytes, with a gap for each fault. -/
def decoded : List UInt8 → List (Option Char)
  | [] => []
  | b :: bs =>
    match lead? b.toNat with
    | none => none :: decoded bs
    | some l =>
      have := length_following_le l.following l.bits l.low l.high bs
      (following l.following l.bits l.low l.high bs).1.map Char.ofNat
        :: decoded (following l.following l.bits l.low l.high bs).2
termination_by bs => bs.length

/-- The text that bytes spell, if they spell one. -/
def decode? (bs : List UInt8) : Option String :=
  ((decoded bs).mapM id).map String.ofList

/-- Bytes as far as they can be shown: faults become replacement characters. -/
def shown (bs : List UInt8) : String :=
  String.ofList ((decoded bs).map (Option.getD · '\ufffd'))

/-- A text, or bytes that are none. -/
inductive Raw where
  | text (s : String)
  | bytes (bs : List UInt8)
  deriving DecidableEq, Repr

namespace Raw

def ofBytes (bs : List UInt8) : Raw :=
  match decode? bs with
  | some s => .text s
  | none => .bytes bs

def text? : Raw → Option String
  | .text s => some s
  | .bytes _ => none

def size : Raw → Nat
  | .text s => s.utf8ByteSize
  | .bytes bs => bs.length

/-- The text, as far as it can be shown. -/
def display : Raw → String
  | .text s => s
  | .bytes bs => shown bs

end Raw

end CastGuard.Text
