/-
# `CastGuard.Proofs.Diff.Compaction` — sliding changes keeps both sides of a script

Compaction moves changes along kept elements, lets changes of different kinds pass each other and
joins those of one kind.  None of this touches what the script starts from or leads to, and no step
of the script becomes empty: that is `Refits`, a preorder on scripts.

The two sides are treated as one.  A side is named by the kind of change that stands on it, so that
deletions belong to the old list and insertions to the new one, and every lemma is for any side.
A script that is held open at a change is compared by closing it (`Opened.closed`).
-/
import CastGuard.Diff.Compaction
import CastGuard.Diff.Script

namespace CastGuard.Diff

variable {α : Type}

/-! ## Either side of a script -/

/-- What a step has on the side where changes of a kind stand. -/
def Edit.on (side : Change) : Edit α → List α
  | .keep xs => xs
  | .change c xs => if c = side then xs else []

/-- The stretch of elements that a step covers. -/
def Edit.stretch : Edit α → List α
  | .keep xs => xs
  | .change _ xs => xs

def sideOf (side : Change) (es : List (Edit α)) : List α := es.flatMap (Edit.on side)

theorem Edit.old_eq_on (e : Edit α) : e.old = e.on .delete := by
  cases e with
  | keep xs => rfl
  | change c xs => cases c <;> rfl

theorem Edit.new_eq_on (e : Edit α) : e.new = e.on .insert := by
  cases e with
  | keep xs => rfl
  | change c xs => cases c <;> rfl

theorem oldSide_eq_sideOf (es : List (Edit α)) : oldSide es = sideOf .delete es :=
  congrArg es.flatMap (funext Edit.old_eq_on)

theorem newSide_eq_sideOf (es : List (Edit α)) : newSide es = sideOf .insert es :=
  congrArg es.flatMap (funext Edit.new_eq_on)

section Sides

variable {side : Change}

@[simp]
theorem sideOf_nil : sideOf side ([] : List (Edit α)) = [] := rfl

@[simp]
theorem sideOf_cons (e : Edit α) (es : List (Edit α)) :
    sideOf side (e :: es) = e.on side ++ sideOf side es := rfl

@[simp]
theorem sideOf_append (as bs : List (Edit α)) :
    sideOf side (as ++ bs) = sideOf side as ++ sideOf side bs := List.flatMap_append

@[simp]
theorem sideOf_keepAll (xs : List α) : sideOf side (keepAll xs) = xs := by
  cases xs <;> simp [keepAll, Edit.on]

@[simp]
theorem reverse_keepAll (xs : List α) : (keepAll xs).reverse = keepAll xs := by
  cases xs <;> simp [keepAll]

@[simp]
theorem sideOf_growFront (xs : List α) (es : List (Edit α)) :
    sideOf side (growFront xs es) = xs ++ sideOf side es := by
  unfold growFront
  split <;> simp [Edit.on]

@[simp]
theorem sideOf_reverse_growBack (xs : List α) (es : List (Edit α)) :
    sideOf side (growBack xs es).reverse = sideOf side es.reverse ++ xs := by
  unfold growBack
  split <;> simp [Edit.on]

end Sides

/-! ## Scripts without empty steps -/

def Solid (es : List (Edit α)) : Prop := ∀ e ∈ es, e.stretch ≠ []

@[simp]
theorem solid_nil : Solid ([] : List (Edit α)) := fun _ he => absurd he List.not_mem_nil

@[simp]
theorem solid_cons {e : Edit α} {es : List (Edit α)} :
    Solid (e :: es) ↔ e.stretch ≠ [] ∧ Solid es := List.forall_mem_cons

@[simp]
theorem solid_append {as bs : List (Edit α)} : Solid (as ++ bs) ↔ Solid as ∧ Solid bs :=
  List.forall_mem_append

@[simp]
theorem solid_reverse {es : List (Edit α)} : Solid es.reverse ↔ Solid es := by
  simp [Solid]

@[simp]
theorem solid_keepAll (xs : List α) : Solid (keepAll xs) := by
  cases xs <;> simp [keepAll, Edit.stretch]

@[simp]
theorem solid_changeAll (c : Change) (xs : List α) : Solid (changeAll c xs) := by
  cases xs <;> simp [changeAll, Edit.stretch]

theorem Solid.growFront {xs : List α} {es : List (Edit α)} (hxs : xs ≠ []) (h : Solid es) :
    Solid (growFront xs es) := by
  unfold Diff.growFront
  split
  · simp_all [Edit.stretch]
  · simp_all [Edit.stretch]

theorem Solid.growBack {xs : List α} {es : List (Edit α)} (hxs : xs ≠ []) (h : Solid es) :
    Solid (growBack xs es) := by
  unfold Diff.growBack
  split
  · simp_all [Edit.stretch]
  · simp_all [Edit.stretch]

theorem solid_script [DecidableEq α] (old new : List α) : Solid (script old new) := by
  fun_induction script old new with
  | case1 old new t inner ih₁ ih₂ =>
    have hreplace : Solid (replaceAll t.old t.new) := by simp [replaceAll]
    have hinner : Solid inner := by
      simp only [inner]
      split
      · exact hreplace
      · split
        · exact hreplace
        · split
          · next x y _ h => exact solid_append.mpr ⟨ih₁ x y h, ih₂ x y h⟩
          · exact hreplace
    simp [hinner]

/-! ## Scripts that say the same -/

/-- The second script says the same as the first, and has no empty steps if that has none. -/
structure Refits (es es' : List (Edit α)) : Prop where
  sides : ∀ side, sideOf side es' = sideOf side es
  solid : Solid es → Solid es'

theorem Refits.refl (es : List (Edit α)) : Refits es es := ⟨fun _ => rfl, id⟩

theorem Refits.trans {es es' es'' : List (Edit α)} (h : Refits es es') (h' : Refits es' es'') :
    Refits es es'' :=
  ⟨fun side => (h'.sides side).trans (h.sides side), fun hes => h'.solid (h.solid hes)⟩

/-- The script that is held open at a change of a kind. -/
def Opened.closed (c : Change) (o : Opened α) : List (Edit α) :=
  o.before.reverse ++ .change c o.focus :: o.after

section Moves

variable {c d : Change} {before after es : List (Edit α)} {focus xs : List α}

/-- Elements at the end of a change that also stand before it can stand behind it instead. -/
theorem refits_up {kept cut : List α} {stay : List α} (hxs : xs = stay ++ kept)
    (hfocus : focus = cut ++ kept) (hkept : kept ≠ []) :
    Refits (Opened.closed c ⟨.keep xs :: es, focus, after⟩)
      (Opened.closed c ⟨keepAll stay ++ es, kept ++ cut, growFront kept after⟩) := by
  subst hxs hfocus
  refine ⟨fun side => ?_, ?_⟩
  · by_cases hc : c = side <;> simp [Opened.closed, Edit.on, hc]
  · intro h
    simp only [Opened.closed, List.reverse_cons, solid_append, solid_cons, solid_reverse] at h ⊢
    obtain ⟨⟨hes, -⟩, -, hafter⟩ := h
    exact ⟨⟨solid_keepAll _, hes⟩, by simp [Edit.stretch, hkept], hafter.growFront hkept⟩

/-- Elements at the start of a change that also stand behind it can stand before it instead. -/
theorem refits_down {kept cut : List α} {stay : List α} (hxs : xs = kept ++ stay)
    (hfocus : focus = kept ++ cut) (hkept : kept ≠ []) :
    Refits (Opened.closed c ⟨before, focus, .keep xs :: es⟩)
      (Opened.closed c ⟨growBack kept before, cut ++ kept, keepAll stay ++ es⟩) := by
  subst hxs hfocus
  refine ⟨fun side => ?_, ?_⟩
  · by_cases hc : c = side <;> simp [Opened.closed, Edit.on, hc]
  · intro h
    simp only [Opened.closed, solid_append, solid_cons, solid_reverse] at h ⊢
    obtain ⟨hbefore, -, -, hes⟩ := h
    exact ⟨hbefore.growBack hkept, by simp [Edit.stretch, hkept], solid_keepAll _, hes⟩

/-- Changes of one kind that touch are one change, whichever of them is held open. -/
theorem refits_join {ys : List α} :
    Refits (before.reverse ++ .change c xs :: .change c ys :: after)
      (Opened.closed c ⟨before, xs ++ ys, after⟩) := by
  refine ⟨fun side => ?_, ?_⟩
  · by_cases hc : c = side <;> simp [Opened.closed, Edit.on, hc]
  · intro h
    simp only [Opened.closed, solid_append, solid_cons, solid_reverse] at h ⊢
    obtain ⟨hbefore, hxs, -, hafter⟩ := h
    exact ⟨hbefore, by simp_all [Edit.stretch], hafter⟩

/-- Changes of different kinds stand on different sides and pass each other. -/
theorem refits_pass {ys : List α} (hdc : d ≠ c) :
    Refits (before.reverse ++ .change d xs :: .change c ys :: after)
      (before.reverse ++ .change c ys :: .change d xs :: after) := by
  refine ⟨fun side => ?_, ?_⟩
  · by_cases hd : d = side
    · have hc : c ≠ side := fun hc => hdc (hd.trans hc.symm)
      simp [Edit.on, hd, hc]
    · simp [Edit.on, hd]
  · intro h
    simp only [solid_append, solid_cons, solid_reverse] at h ⊢
    obtain ⟨hbefore, hxs, hys, hafter⟩ := h
    exact ⟨hbefore, hys, hxs, hafter⟩

theorem refits_dropEmpty (as bs : List (Edit α)) : Refits (as ++ .keep [] :: bs) (as ++ bs) := by
  refine ⟨fun side => ?_, ?_⟩
  · simp [Edit.on]
  · intro h
    exact absurd rfl (h (.keep []) (by simp))

end Moves

/-! ## Compaction -/

theorem lastOf_ne_nil {n : Nat} {xs : List α} (hpos : 0 < n) (hle : n ≤ xs.length) :
    lastOf n xs ≠ [] := by
  intro h
  have hlength := congrArg List.length h
  simp only [lastOf, List.length_drop, List.length_nil] at hlength
  omega

theorem take_ne_nil {n : Nat} {xs : List α} (hpos : 0 < n) (hle : n ≤ xs.length) :
    xs.take n ≠ [] := by
  intro h
  have hlength := congrArg List.length h
  simp only [List.length_take, List.length_nil] at hlength
  omega

section Compaction

variable [DecidableEq α]

theorem refits_slideUp (c : Change) (before : List (Edit α)) (focus : List α)
    (after : List (Edit α)) :
    Refits (Opened.closed c ⟨before, focus, after⟩)
      (Opened.closed c (slideUp c before focus after)) := by
  fun_induction slideUp c before focus after with
  | case1 focus after => exact .refl _
  | case2 focus after xs es s h ih =>
    refine (refits_up (butLast_append_lastOf s xs).symm ?_ (lastOf_ne_nil h.1 h.2)).trans ih
    rw [← lastOf_commonBack focus xs, butLast_append_lastOf]
  | case3 focus after xs es s h hempty ih =>
    obtain rfl : xs = [] := by simpa using hempty
    refine .trans ?_ ih
    simpa [Opened.closed] using refits_dropEmpty es.reverse (.change c focus :: after)
  | case4 focus after xs es s h hempty => exact .refl _
  | case5 focus after xs es ih =>
    refine .trans ?_ ih
    rw [Opened.closed, List.reverse_cons, List.append_assoc]
    exact refits_join
  | case6 focus after d xs es hdc ih =>
    refine .trans ?_ ih
    rw [Opened.closed, List.reverse_cons, List.append_assoc]
    exact refits_pass hdc

theorem refits_slideDown (c : Change) (before : List (Edit α)) (focus : List α)
    (after : List (Edit α)) :
    Refits (Opened.closed c ⟨before, focus, after⟩)
      (Opened.closed c (slideDown c before focus after)) := by
  fun_induction slideDown c before focus after with
  | case1 before focus => exact .refl _
  | case2 before focus xs es s h ih =>
    refine (refits_down (List.take_append_drop s xs).symm ?_ (take_ne_nil h.1 h.2)).trans ih
    rw [← take_commonFront focus xs, List.take_append_drop]
  | case3 before focus xs es s h hempty ih =>
    obtain rfl : xs = [] := by simpa using hempty
    have hdrop := refits_dropEmpty (before.reverse ++ [.change c focus]) es
    rw [List.append_assoc, List.append_assoc] at hdrop
    exact hdrop.trans ih
  | case4 before focus xs es s h hempty => exact .refl _
  | case5 before focus xs es ih => exact .trans refits_join ih
  | case6 before focus d xs es hdc ih =>
    refine .trans ?_ ih
    rw [Opened.closed, Opened.closed, List.reverse_cons, List.append_assoc]
    exact refits_pass (Ne.symm hdc)

theorem refits_settle (c : Change) (before : List (Edit α)) (focus : List α)
    (after : List (Edit α)) :
    Refits (Opened.closed c ⟨before, focus, after⟩)
      (Opened.closed c (settle c before focus after)) :=
  (refits_slideUp c before focus after).trans (refits_slideDown ..)

theorem refits_settleAll (c : Change) (before after : List (Edit α)) :
    Refits (before.reverse ++ after) (settleAll c before after) := by
  fun_induction settleAll c before after with
  | case1 before => simpa using Refits.refl before.reverse
  | case2 before xs es ih => simpa using ih
  | case3 before xs es o ih =>
    refine (refits_settle c before xs es).trans ?_
    simpa [Opened.closed, o] using ih
  | case4 before d xs es _ ih => simpa using ih

theorem refits_compact (es : List (Edit α)) : Refits es (compact es) :=
  (refits_settleAll .delete [] es).trans (refits_settleAll .insert [] _)

/-- The compacted script of two lists starts from the one, leads to the other, and has no empty
steps. -/
theorem compact_script (old new : List α) :
    sideOf .delete (compact (script old new)) = old ∧
      sideOf .insert (compact (script old new)) = new ∧ Solid (compact (script old new)) := by
  have h := refits_compact (script old new)
  refine ⟨?_, ?_, h.solid (solid_script old new)⟩
  · rw [h.sides, ← oldSide_eq_sideOf, oldSide_script]
  · rw [h.sides, ← newSide_eq_sideOf, newSide_script]

end Compaction

end CastGuard.Diff
