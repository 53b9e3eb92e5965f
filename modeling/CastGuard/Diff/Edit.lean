/-
# `CastGuard.Diff.Edit` — edit scripts

An edit script turns one list into another: it keeps some elements and deletes or inserts others,
from left to right.  A script has two sides, the list it starts from and the list it leads to; all
that is done to scripts in this folder keeps both.
-/

namespace CastGuard.Diff

/-- The two ways in which the sides of a script differ. -/
inductive Change where
  | delete
  | insert
  deriving DecidableEq, Repr

/-- One step of an edit script, over a stretch of elements. -/
inductive Edit (α : Type) where
  | keep (xs : List α)
  | change (c : Change) (xs : List α)
  deriving DecidableEq, Repr

variable {α : Type}

/-- What a step takes from the old list. -/
def Edit.old : Edit α → List α
  | .keep xs => xs
  | .change .delete xs => xs
  | .change .insert _ => []

/-- What a step gives to the new list. -/
def Edit.new : Edit α → List α
  | .keep xs => xs
  | .change .delete _ => []
  | .change .insert xs => xs

/-- The list that a script starts from. -/
def oldSide (es : List (Edit α)) : List α := es.flatMap Edit.old

/-- The list that a script leads to. -/
def newSide (es : List (Edit α)) : List α := es.flatMap Edit.new

/-- The step over a stretch, or none if the stretch is empty. -/
def keepAll (xs : List α) : List (Edit α) := if xs.isEmpty then [] else [.keep xs]

/-- The changes over a stretch, or none if the stretch is empty. -/
def changeAll (c : Change) (xs : List α) : List (Edit α) :=
  if xs.isEmpty then [] else [.change c xs]

@[simp]
theorem oldSide_append (as bs : List (Edit α)) : oldSide (as ++ bs) = oldSide as ++ oldSide bs := by
  simp [oldSide]

@[simp]
theorem newSide_append (as bs : List (Edit α)) : newSide (as ++ bs) = newSide as ++ newSide bs := by
  simp [newSide]

@[simp]
theorem oldSide_keepAll (xs : List α) : oldSide (keepAll xs) = xs := by
  cases xs <;> simp [keepAll, oldSide, Edit.old]

@[simp]
theorem newSide_keepAll (xs : List α) : newSide (keepAll xs) = xs := by
  cases xs <;> simp [keepAll, newSide, Edit.new]

@[simp]
theorem oldSide_delete (xs : List α) : oldSide (changeAll .delete xs) = xs := by
  cases xs <;> simp [changeAll, oldSide, Edit.old]

@[simp]
theorem newSide_delete (xs : List α) : newSide (changeAll .delete xs) = [] := by
  cases xs <;> simp [changeAll, newSide, Edit.new]

@[simp]
theorem oldSide_insert (xs : List α) : oldSide (changeAll .insert xs) = [] := by
  cases xs <;> simp [changeAll, oldSide, Edit.old]

@[simp]
theorem newSide_insert (xs : List α) : newSide (changeAll .insert xs) = xs := by
  cases xs <;> simp [changeAll, newSide, Edit.new]

/-! ## Common ends -/

def commonFront [DecidableEq α] : List α → List α → Nat
  | x :: xs, y :: ys => if x = y then commonFront xs ys + 1 else 0
  | _, _ => 0

def commonBack [DecidableEq α] (xs ys : List α) : Nat := commonFront xs.reverse ys.reverse

theorem take_commonFront [DecidableEq α] (xs ys : List α) :
    xs.take (commonFront xs ys) = ys.take (commonFront xs ys) := by
  fun_induction commonFront xs ys with
  | case1 x xs ys ih => simp [ih]
  | case2 => simp
  | case3 => simp

def lastOf (n : Nat) (xs : List α) : List α := xs.drop (xs.length - n)

def butLast (n : Nat) (xs : List α) : List α := xs.take (xs.length - n)

@[simp]
theorem butLast_append_lastOf (n : Nat) (xs : List α) : butLast n xs ++ lastOf n xs = xs :=
  List.take_append_drop _ _

theorem lastOf_commonBack [DecidableEq α] (xs ys : List α) :
    lastOf (commonBack xs ys) xs = lastOf (commonBack xs ys) ys := by
  have h := congrArg List.reverse (take_commonFront xs.reverse ys.reverse)
  simpa [lastOf, commonBack, List.reverse_take] using h

end CastGuard.Diff
