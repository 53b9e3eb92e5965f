/-
# `CastGuard.Diff.Script` — an edit script between two lists

What the lists start and end with in common is kept.  What is left is deleted or inserted when one
side is empty, and is divided in the middle otherwise.  The sides of the script are the two lists,
wherever the division falls; a division that would not make both problems smaller is not used.
-/
import CastGuard.Diff.Snake

namespace CastGuard.Diff

variable {α : Type} [DecidableEq α]

/-- Two lists without their common ends, and those ends. -/
structure Trimmed (α : Type) where
  front : List α
  old : List α
  new : List α
  back : List α

/-- Takes the common front off two lists, then the common back. -/
def trimmed (old new : List α) : Trimmed α :=
  let front := commonFront old new
  let back := commonBack (old.drop front) (new.drop front)
  ⟨old.take front, butLast back (old.drop front), butLast back (new.drop front),
    lastOf back (old.drop front)⟩

theorem trimmed_old (old new : List α) :
    (trimmed old new).front ++ ((trimmed old new).old ++ (trimmed old new).back) = old := by
  simp [trimmed]

theorem trimmed_new (old new : List α) :
    (trimmed old new).front ++ ((trimmed old new).new ++ (trimmed old new).back) = new := by
  simp only [trimmed]
  rw [lastOf_commonBack, butLast_append_lastOf, take_commonFront, List.take_append_drop]

theorem length_trimmed_old_le (old new : List α) : (trimmed old new).old.length ≤ old.length := by
  simp only [trimmed, butLast, List.length_take, List.length_drop]
  omega

theorem length_trimmed_new_le (old new : List α) : (trimmed old new).new.length ≤ new.length := by
  simp only [trimmed, butLast, List.length_take, List.length_drop]
  omega

def replaceAll (old new : List α) : List (Edit α) :=
  changeAll .delete old ++ changeAll .insert new

def script (old new : List α) : List (Edit α) :=
  let t := trimmed old new
  let inner :=
    if t.old.isEmpty || t.new.isEmpty then replaceAll t.old t.new
    else match middle? t.old t.new with
      | none => replaceAll t.old t.new
      | some (x, y) =>
        if _h : 0 < (t.old.take x).length + (t.new.take y).length ∧
            0 < (t.old.drop x).length + (t.new.drop y).length then
          script (t.old.take x) (t.new.take y) ++ script (t.old.drop x) (t.new.drop y)
        else replaceAll t.old t.new
  keepAll t.front ++ (inner ++ keepAll t.back)
termination_by old.length + new.length
decreasing_by
  all_goals
    have ho := length_trimmed_old_le old new
    have hn := length_trimmed_new_le old new
    simp only [List.length_take, List.length_drop, t] at *
    omega

theorem oldSide_script (old new : List α) : oldSide (script old new) = old := by
  fun_induction script old new with
  | case1 old new t inner ih₁ ih₂ =>
    have h : oldSide inner = t.old := by
      simp only [inner]
      split
      · simp [replaceAll]
      · split
        · simp [replaceAll]
        · split
          · next x y _ h => simp [ih₁ x y h, ih₂ x y h]
          · simp [replaceAll]
    simp only [oldSide_append, oldSide_keepAll, h]
    exact trimmed_old old new

theorem newSide_script (old new : List α) : newSide (script old new) = new := by
  fun_induction script old new with
  | case1 old new t inner ih₁ ih₂ =>
    have h : newSide inner = t.new := by
      simp only [inner]
      split
      · simp [replaceAll]
      · split
        · simp [replaceAll]
        · split
          · next x y _ h => simp [ih₁ x y h, ih₂ x y h]
          · simp [replaceAll]
    simp only [newSide_append, newSide_keepAll, h]
    exact trimmed_new old new

end CastGuard.Diff
