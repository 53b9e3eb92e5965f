/-
# `CastGuard.Tally` — fixes counted by rule

A tally lists rules with their number of fixes, in the order of the rules' names and each once.
Tallies, trails of steps and reports are all totalled in the same way, by `sumOf`.
-/

namespace CastGuard

/-! ## Sums over lists -/

section Sum

variable {α β : Type}

/-- The sum of what `count` says of the members of a list. -/
def sumOf (count : α → Nat) : List α → Nat
  | [] => 0
  | a :: as => count a + sumOf count as

@[simp]
theorem sumOf_nil (count : α → Nat) : sumOf count [] = 0 := rfl

@[simp]
theorem sumOf_cons (count : α → Nat) (a : α) (as : List α) :
    sumOf count (a :: as) = count a + sumOf count as := rfl

@[simp]
theorem sumOf_map (count : β → Nat) (f : α → β) (as : List α) :
    sumOf count (as.map f) = sumOf (fun a => count (f a)) as := by
  induction as with
  | nil => rfl
  | cons a as ih => rw [List.map_cons, sumOf_cons, sumOf_cons, ih]

theorem sumOf_append (count : α → Nat) (as bs : List α) :
    sumOf count (as ++ bs) = sumOf count as + sumOf count bs := by
  induction as with
  | nil => rw [List.nil_append, sumOf_nil, Nat.zero_add]
  | cons a as ih => rw [List.cons_append, sumOf_cons, sumOf_cons, ih, Nat.add_assoc]

end Sum

/-! ## Tallies -/

/-- Numbers of fixes by rule name, names in increasing order. -/
abbrev Tally := List (String × Nat)

namespace Tally

/-- Counts `n` more fixes for a rule. -/
def add (rule : String) (n : Nat) : Tally → Tally
  | [] => [(rule, n)]
  | (r, m) :: t =>
    if rule = r then (r, m + n) :: t
    else if rule < r then (rule, n) :: (r, m) :: t
    else (r, m) :: add rule n t

def total (t : Tally) : Nat := sumOf Prod.snd t

/-- All counts of `t`, added to `s`. -/
def merge (s t : Tally) : Tally := t.foldl (fun acc (rule, n) => acc.add rule n) s

theorem total_add (rule : String) (n : Nat) (t : Tally) : (add rule n t).total = t.total + n := by
  induction t with
  | nil => simp [add, total]
  | cons e t ih =>
    simp only [total] at ih
    simp only [add, total]
    split
    · simp; omega
    · split
      · simp; omega
      · simp [ih]; omega

theorem total_merge (s t : Tally) : (merge s t).total = s.total + t.total := by
  induction t generalizing s with
  | nil => simp [merge, total]
  | cons e t ih =>
    have h := ih (add e.1 e.2 s)
    simp only [merge, List.foldl_cons] at h ⊢
    rw [h, total_add]
    simp [total]
    omega

end Tally

end CastGuard
