/-
# `CastGuard.Text.Parts` — texts divided by a separator

The parts of a text between the occurrences of one character, and the text put together again.
There is always at least one part.
-/

namespace CastGuard.Text

def parts (sep : Char) : List Char → List (List Char)
  | [] => [[]]
  | c :: cs =>
    if c = sep then [] :: parts sep cs
    else match parts sep cs with
      | [] => [[c]]
      | p :: ps => (c :: p) :: ps

/-- Parts with a separator between any two of them. -/
def joined (sep : Char) : List (List Char) → List Char
  | [] => []
  | [p] => p
  | p :: q :: ps => p ++ sep :: joined sep (q :: ps)

theorem parts_ne_nil (sep : Char) (cs : List Char) : parts sep cs ≠ [] := by
  cases cs with
  | nil => simp [parts]
  | cons c cs =>
    simp only [parts]
    split
    · simp
    · split <;> simp

/-- Dividing loses nothing. -/
theorem joined_parts (sep : Char) (cs : List Char) : joined sep (parts sep cs) = cs := by
  induction cs with
  | nil => rfl
  | cons c cs ih =>
    have hne := parts_ne_nil sep cs
    simp only [parts]
    split
    · next h =>
      cases hp : parts sep cs with
      | nil => exact absurd hp hne
      | cons p ps => rw [joined, ← hp, ih, h]; rfl
    · cases hp : parts sep cs with
      | nil => exact absurd hp hne
      | cons p ps =>
        rw [hp] at ih
        cases ps with
        | nil => simpa [joined] using ih
        | cons q ps => simpa [joined] using ih

end CastGuard.Text
