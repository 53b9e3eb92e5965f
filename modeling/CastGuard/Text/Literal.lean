/-
# `CastGuard.Text.Literal` — fixed pieces and runs

What follows a fixed piece at the front of a text, what precedes one at its end, and the longest
run of characters of a class.  Recognisers are chained out of these; of the first two, the `iff`
lemmas are all that is ever used.
-/

namespace CastGuard.Text

/-- What follows `lit` at the front of a text, if the text starts with it. -/
def after? : List Char → List Char → Option (List Char)
  | [], cs => some cs
  | _ :: _, [] => none
  | l :: ls, c :: cs => if l = c then after? ls cs else none

@[simp]
theorem after?_nil (cs : List Char) : after? [] cs = some cs := by
  cases cs <;> rfl

theorem after?_eq_some_iff {lit cs rest : List Char} :
    after? lit cs = some rest ↔ cs = lit ++ rest := by
  induction lit generalizing cs with
  | nil => simp
  | cons l ls ih =>
    cases cs with
    | nil => simp [after?]
    | cons c cs =>
      by_cases h : l = c
      · simp [after?, h, ih]
      · simp [after?, h, Ne.symm h]

@[simp]
theorem after?_append (lit rest : List Char) : after? lit (lit ++ rest) = some rest :=
  after?_eq_some_iff.mpr rfl

/-- What precedes `lit` at the end of a text, if the text ends with it. -/
def before? (lit cs : List Char) : Option (List Char) :=
  (after? lit.reverse cs.reverse).map List.reverse

theorem before?_eq_some_iff {lit cs front : List Char} :
    before? lit cs = some front ↔ cs = front ++ lit := by
  unfold before?
  constructor
  · intro h
    obtain ⟨r, hr, rfl⟩ := Option.map_eq_some_iff.mp h
    have := congrArg List.reverse (after?_eq_some_iff.mp hr)
    simpa using this
  · rintro rfl
    simp [List.reverse_append]

/-- The longest run of characters of a class and what follows it, if the run is not empty. -/
def run? (p : Char → Bool) (cs : List Char) : Option (List Char × List Char) :=
  if (cs.takeWhile p).isEmpty then none else some (cs.takeWhile p, cs.dropWhile p)

theorem run?_eq_some_iff {p : Char → Bool} {cs front rest : List Char} :
    run? p cs = some (front, rest) ↔
      front ≠ [] ∧ front = cs.takeWhile p ∧ rest = cs.dropWhile p := by
  unfold run?
  split
  · next h =>
    rw [List.isEmpty_iff] at h
    simp only [reduceCtorEq, false_iff, h]
    exact fun ⟨hne, hnil, _⟩ => hne hnil
  · next h =>
    rw [List.isEmpty_iff] at h
    simp only [Option.some.injEq, Prod.mk.injEq]
    constructor
    · rintro ⟨rfl, rfl⟩
      exact ⟨h, rfl, rfl⟩
    · rintro ⟨_, rfl, rfl⟩
      exact ⟨rfl, rfl⟩

/-- A text from the first place on where `part` stands, if it stands anywhere. -/
def fromFirst? (part : List Char) : List Char → Option (List Char)
  | [] => (after? part []).map fun _ => []
  | c :: cs => if (after? part (c :: cs)).isSome then some (c :: cs) else fromFirst? part cs

theorem fromFirst?_of_after {part cs rest : List Char} (h : after? part cs = some rest) :
    fromFirst? part cs = some cs := by
  cases cs with
  | nil => rw [fromFirst?, h, Option.map_some]
  | cons c cs => rw [fromFirst?, h, Option.isSome_some, if_pos rfl]

theorem fromFirst?_of_not_after {part cs : List Char} {c : Char}
    (h : after? part (c :: cs) = none) :
    fromFirst? part (c :: cs) = fromFirst? part cs := by
  rw [fromFirst?, h, Option.isSome_none, if_neg (by simp)]

/-- Where the first character of what is looked for does not stand, it is not found. -/
theorem fromFirst?_append_of_notMem {first : Char} {part front rest : List Char}
    (h : first ∉ front) :
    fromFirst? (first :: part) (front ++ rest) = fromFirst? (first :: part) rest := by
  induction front with
  | nil => rfl
  | cons c front ih =>
    rw [List.mem_cons, not_or] at h
    rw [List.cons_append, fromFirst?_of_not_after (by rw [after?, if_neg h.1]), ih h.2]

def occursIn (part : List Char) : List Char → Bool
  | [] => part.isEmpty
  | c :: cs => (after? part (c :: cs)).isSome || occursIn part cs

end CastGuard.Text
