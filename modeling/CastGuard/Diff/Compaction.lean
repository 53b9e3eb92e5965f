/-
# `CastGuard.Diff.Compaction` — sliding changes along equal elements

A change next to kept elements can often slide: if the elements at its end are also those in front
of it, the change may as well start earlier.  Every change is slid up as far as it goes and then
down as far as it goes; changes of one kind that touch become one, and changes of different kinds
pass each other.  Deletions go first, then insertions.

A script is held open at one change: the steps before it, nearest first, and those after it.
-/
import CastGuard.Diff.Edit

namespace CastGuard.Diff

variable {α : Type}

/-- A script open at a change, whose kind is known from the context. -/
structure Opened (α : Type) where
  before : List (Edit α)
  focus : List α
  after : List (Edit α)

/-- Keeps `xs` in front of what follows. -/
def growFront (xs : List α) : List (Edit α) → List (Edit α)
  | .keep ys :: es => .keep (xs ++ ys) :: es
  | es => .keep xs :: es

/-- Keeps `xs` behind what precedes, given nearest first. -/
def growBack (xs : List α) : List (Edit α) → List (Edit α)
  | .keep ys :: es => .keep (ys ++ xs) :: es
  | es => .keep xs :: es

/-- The number of steps and kept elements, which bounds how far a change can slide. -/
def room : List (Edit α) → Nat
  | [] => 0
  | .keep xs :: es => xs.length + 1 + room es
  | .change _ _ :: es => 1 + room es

theorem room_keepAll (xs : List α) (es : List (Edit α)) :
    room (keepAll xs ++ es) ≤ room (.keep xs :: es) := by
  cases xs <;> simp [keepAll, room]

/-- Slides a change up as far as it goes. -/
def slideUp [DecidableEq α] (c : Change) (before : List (Edit α)) (focus : List α)
    (after : List (Edit α)) : Opened α :=
  match before with
  | [] => ⟨[], focus, after⟩
  | .keep xs :: es =>
    let s := commonBack focus xs
    if _h : 0 < s ∧ s ≤ xs.length then
      slideUp c (keepAll (butLast s xs) ++ es) (lastOf s xs ++ butLast s focus)
        (growFront (lastOf s xs) after)
    else if xs.isEmpty then slideUp c es focus after
    else ⟨.keep xs :: es, focus, after⟩
  | .change d xs :: es =>
    if d = c then slideUp c es (xs ++ focus) after
    else slideUp c es focus (.change d xs :: after)
termination_by room before
decreasing_by
  · calc room (keepAll (butLast s xs) ++ es) ≤ room (.keep (butLast s xs) :: es) := room_keepAll _ _
      _ < room (.keep xs :: es) := by simp only [room, butLast, List.length_take]; omega
  all_goals simp only [room]; omega

/-- Slides a change down as far as it goes. -/
def slideDown [DecidableEq α] (c : Change) (before : List (Edit α)) (focus : List α)
    (after : List (Edit α)) : Opened α :=
  match after with
  | [] => ⟨before, focus, []⟩
  | .keep xs :: es =>
    let s := commonFront focus xs
    if _h : 0 < s ∧ s ≤ xs.length then
      slideDown c (growBack (xs.take s) before) (focus.drop s ++ xs.take s)
        (keepAll (xs.drop s) ++ es)
    else if xs.isEmpty then slideDown c before focus es
    else ⟨before, focus, .keep xs :: es⟩
  | .change d xs :: es =>
    if d = c then slideDown c before (focus ++ xs) es
    else slideDown c (.change d xs :: before) focus es
termination_by room after
decreasing_by
  · calc room (keepAll (xs.drop s) ++ es) ≤ room (.keep (xs.drop s) :: es) := room_keepAll _ _
      _ < room (.keep xs :: es) := by simp only [room, List.length_drop]; omega
  all_goals simp only [room]; omega

/-- Slides a change up and then down. -/
def settle [DecidableEq α] (c : Change) (before : List (Edit α)) (focus : List α)
    (after : List (Edit α)) : Opened α :=
  let up := slideUp c before focus after
  slideDown c up.before up.focus up.after

def changes (c : Change) : List (Edit α) → Nat
  | [] => 0
  | .keep _ :: es => changes c es
  | .change d _ :: es => (if d = c then 1 else 0) + changes c es

@[simp]
theorem changes_growFront (c : Change) (xs : List α) (es : List (Edit α)) :
    changes c (growFront xs es) = changes c es := by
  unfold growFront
  split <;> simp [changes]

@[simp]
theorem changes_keepAll_append (c : Change) (xs : List α) (es : List (Edit α)) :
    changes c (keepAll xs ++ es) = changes c es := by
  cases xs <;> simp [keepAll, changes]

theorem changes_slideUp [DecidableEq α] (c : Change) (before : List (Edit α)) (focus : List α)
    (after : List (Edit α)) :
    changes c (slideUp c before focus after).after ≤ changes c after := by
  fun_induction slideUp c before focus after with
  | case1 => simp
  | case2 focus after xs es s h ih => simpa using ih
  | case3 focus after xs es s h he ih => exact ih
  | case4 => simp
  | case5 focus after xs es ih => exact ih
  | case6 focus after d xs es h ih => simpa [changes, h] using ih

theorem changes_slideDown [DecidableEq α] (c : Change) (before : List (Edit α)) (focus : List α)
    (after : List (Edit α)) :
    changes c (slideDown c before focus after).after ≤ changes c after := by
  fun_induction slideDown c before focus after with
  | case1 => simp
  | case2 before focus xs es s h ih => simpa [changes] using ih
  | case3 before focus xs es s h he ih => simpa [changes] using ih
  | case4 => simp
  | case5 before focus xs es ih => exact Nat.le_trans ih (by simp [changes])
  | case6 before focus d xs es h ih => simpa [changes, h] using ih

theorem changes_settle [DecidableEq α] (c : Change) (before : List (Edit α)) (focus : List α)
    (after : List (Edit α)) :
    changes c (settle c before focus after).after ≤ changes c after :=
  Nat.le_trans (changes_slideDown ..) (changes_slideUp ..)

/-- Settles every change of a kind that comes after `before`, from left to right. -/
def settleAll [DecidableEq α] (c : Change) (before after : List (Edit α)) : List (Edit α) :=
  match after with
  | [] => before.reverse
  | .keep xs :: es => settleAll c (.keep xs :: before) es
  | .change d xs :: es =>
    if d = c then
      let o := settle c before xs es
      settleAll c (.change c o.focus :: o.before) o.after
    else settleAll c (.change d xs :: before) es
termination_by (changes c after, after.length)
decreasing_by
  · simp only [changes]; exact Prod.Lex.right _ (by simp)
  · refine Prod.Lex.left _ _ ?_
    have := changes_settle c before xs es
    simp only [changes, *, if_true]
    omega
  · simp only [changes, *, if_false]
    rw [Nat.zero_add]
    exact Prod.Lex.right _ (by simp)

/-- Settles all deletions, then all insertions. -/
def compact [DecidableEq α] (es : List (Edit α)) : List (Edit α) :=
  settleAll .insert [] (settleAll .delete [] es)

end CastGuard.Diff
