/-
# `CastGuard.Proofs.ScriptPath.Order` — path maps are ordered and hold each path once

Paths are ordered by their components, and two spellings of one path have the same components, so
the order is strict and total up to spelling: of two paths one comes first, or they are the same.

A path map is ordered if each of its paths comes before all later ones.  Every map that is built
from a list is, and setting a value keeps it so.  On an ordered map `set` acts like an update: the
path is found under any spelling, other paths keep their values, and the spellings stay if the path
was there.
-/
import CastGuard.ScriptPath

namespace CastGuard

/-! ## The order of components -/

namespace Component

theorem before_iff {a b : Component} :
    a.before b = true ↔ a.rank < b.rank ∨ ∃ s t, a = .name s ∧ b = .name t ∧ s < t := by
  cases a <;> cases b <;> simp [before, rank]

theorem eq_or_names_of_rank_eq {a b : Component} (h : a.rank = b.rank) :
    a = b ∨ ∃ s t, a = .name s ∧ b = .name t := by
  cases a <;> cases b <;> simp [rank] at h ⊢

theorem before_irrefl (a : Component) : a.before a = false := by
  cases a with
  | name s => simp [before]
  | root => rfl
  | here => rfl
  | up => rfl

theorem before_trans {a b c : Component} (hab : a.before b = true) (hbc : b.before c = true) :
    a.before c = true := by
  rw [before_iff] at hab hbc ⊢
  rcases hab with hab | ⟨s, t, rfl, rfl, hst⟩
  · rcases hbc with hbc | ⟨t, u, rfl, rfl, -⟩
    · exact .inl (Nat.lt_trans hab hbc)
    · exact .inl hab
  · rcases hbc with hbc | ⟨t', u, heq, rfl, htu⟩
    · exact .inl hbc
    · obtain rfl := Component.name.inj heq
      exact .inr ⟨s, u, rfl, rfl, String.lt_trans hst htu⟩

theorem before_total {a b : Component} (hne : a ≠ b) (h : a.before b = false) :
    b.before a = true := by
  rw [← Bool.not_eq_true, before_iff, not_or] at h
  obtain ⟨hrank, hnames⟩ := h
  rw [before_iff]
  rcases Nat.lt_or_eq_of_le (Nat.le_of_not_lt hrank) with hlt | heq
  · exact .inl hlt
  · obtain rfl | ⟨t, s, rfl, rfl⟩ := eq_or_names_of_rank_eq heq
    · exact absurd rfl hne
    · refine .inr ⟨t, s, rfl, rfl, Decidable.not_not.mp fun hts => hne ?_⟩
      have hst : ¬ s < t := fun hst => hnames ⟨s, t, rfl, rfl, hst⟩
      rw [String.le_antisymm hts hst]

end Component

/-! ## The order of paths -/

namespace ScriptPath

theorem componentsBefore_irrefl (as : List Component) : componentsBefore as as = false := by
  induction as with
  | nil => rfl
  | cons a as ih => simp [componentsBefore, ih]

theorem componentsBefore_trans {as bs cs : List Component} (hab : componentsBefore as bs = true)
    (hbc : componentsBefore bs cs = true) : componentsBefore as cs = true := by
  induction as generalizing bs cs with
  | nil =>
    cases cs with
    | nil => cases bs <;> exact absurd hbc (by simp [componentsBefore])
    | cons c cs => rfl
  | cons a as ih =>
    cases bs with
    | nil => exact absurd hab (by simp [componentsBefore])
    | cons b bs =>
      cases cs with
      | nil => exact absurd hbc (by simp [componentsBefore])
      | cons c cs =>
        simp only [componentsBefore] at hab hbc ⊢
        -- the first difference is one of the two that are there, or both are in the same place
        by_cases hab' : a = b
        · subst hab'
          by_cases hac : a = c
          · simp only [hac, if_true] at hab hbc ⊢
            exact ih hab hbc
          · simpa [hac] using hbc
        · rw [if_neg hab'] at hab
          by_cases hbc' : b = c
          · subst hbc'
            rwa [if_neg hab']
          · rw [if_neg hbc'] at hbc
            have hac := Component.before_trans hab hbc
            have hne : a ≠ c := by
              rintro rfl
              exact absurd hac (by simp [Component.before_irrefl])
            rwa [if_neg hne]

theorem componentsBefore_total {as bs : List Component} (hne : as ≠ bs)
    (h : componentsBefore as bs = false) : componentsBefore bs as = true := by
  induction as generalizing bs with
  | nil =>
    cases bs with
    | nil => exact absurd rfl hne
    | cons b bs => exact absurd h (by simp [componentsBefore])
  | cons a as ih =>
    cases bs with
    | nil => rfl
    | cons b bs =>
      simp only [componentsBefore] at h ⊢
      by_cases hab : a = b
      · subst hab
        rw [if_pos rfl] at h ⊢
        exact ih (fun heq => hne (by rw [heq])) h
      · rw [if_neg hab] at h
        rw [if_neg (Ne.symm hab)]
        exact Component.before_total hab h

theorem same_iff {p q : String} : same p q = true ↔ components p = components q := by
  simp [same]

theorem same_refl (p : String) : same p p = true := same_iff.mpr rfl

theorem same_symm {p q : String} (h : same p q = true) : same q p = true :=
  same_iff.mpr (same_iff.mp h).symm

theorem same_trans {p q r : String} (hpq : same p q = true) (hqr : same q r = true) :
    same p r = true := same_iff.mpr ((same_iff.mp hpq).trans (same_iff.mp hqr))

theorem before_trans {p q r : String} (hpq : before p q = true) (hqr : before q r = true) :
    before p r = true := componentsBefore_trans hpq hqr

theorem before_total {p q : String} (hsame : same p q = false) (h : before p q = false) :
    before q p = true := by
  refine componentsBefore_total (fun heq => ?_) h
  rw [same_iff.mpr heq] at hsame
  exact absurd hsame (by decide)

theorem before_congr {p p' q q' : String} (hp : same p p' = true) (hq : same q q' = true) :
    before p q = before p' q' := by
  unfold before
  rw [same_iff.mp hp, same_iff.mp hq]

theorem not_same_of_before {p q : String} (h : before p q = true) : same p q = false := by
  rw [← Bool.not_eq_true]
  intro hsame
  rw [before, same_iff.mp hsame, componentsBefore_irrefl] at h
  exact absurd h (by decide)

end ScriptPath

/-! ## Ordered maps -/

namespace PathMap

open ScriptPath

variable {α : Type}

def Ordered (m : PathMap α) : Prop := m.paths.Pairwise fun p q => before p q = true

theorem ordered_cons {d : String × α} {m : PathMap α} :
    Ordered (d :: m) ↔ (∀ q ∈ m.paths, before d.1 q = true) ∧ m.Ordered := List.pairwise_cons

theorem mem_paths_insertWith {merge : String × α → String × α → String × α} {e : String × α}
    {m : PathMap α} {q : String} (hmerge : ∀ d, (merge d e).1 = d.1 ∨ (merge d e).1 = e.1)
    (h : q ∈ (insertWith merge e m).paths) : q = e.1 ∨ q ∈ m.paths := by
  induction m with
  | nil =>
    obtain rfl : q = e.1 := by simpa [insertWith, paths] using h
    exact .inl rfl
  | cons d m ih =>
    unfold insertWith at h
    split at h
    · rcases List.mem_cons.mp h with rfl | h
      · rcases hmerge d with heq | heq
        · exact .inr (by simp [paths, heq])
        · exact .inl heq
      · exact .inr (List.mem_cons_of_mem _ h)
    · split at h
      · rcases List.mem_cons.mp h with rfl | h
        · exact .inl rfl
        · exact .inr h
      · rcases List.mem_cons.mp h with rfl | h
        · exact .inr List.mem_cons_self
        · rcases ih h with heq | h
          · exact .inl heq
          · exact .inr (List.mem_cons_of_mem _ h)

theorem mem_paths_add {path q : String} {value : α} {m : PathMap α} (h : q ∈ m.paths) :
    q ∈ (PathMap.add path value m).paths := by
  induction m with
  | nil => exact absurd h List.not_mem_nil
  | cons d m ih =>
    unfold PathMap.add PathMap.insertWith
    split
    · exact h
    · split
      · exact List.mem_cons_of_mem _ h
      · rcases List.mem_cons.mp h with rfl | h
        · exact List.mem_cons_self
        · exact List.mem_cons_of_mem _ (ih h)

theorem exists_same_add (path : String) (value : α) (m : PathMap α) :
    ∃ q ∈ (PathMap.add path value m).paths, same q path = true := by
  induction m with
  | nil => exact ⟨path, List.mem_cons_self, same_refl path⟩
  | cons d m ih =>
    unfold PathMap.add PathMap.insertWith
    split
    · next hsame => exact ⟨d.1, List.mem_cons_self, same_symm hsame⟩
    · split
      · exact ⟨path, List.mem_cons_self, same_refl path⟩
      · obtain ⟨q, hq, hsame⟩ := ih
        exact ⟨q, List.mem_cons_of_mem _ hq, hsame⟩

theorem Ordered.insertWith {merge : String × α → String × α → String × α} {e : String × α}
    {m : PathMap α} (hmerge : ∀ d, (merge d e).1 = d.1 ∨ (merge d e).1 = e.1) (h : m.Ordered) :
    (insertWith merge e m).Ordered := by
  induction m with
  | nil => exact List.pairwise_singleton _ _
  | cons d m ih =>
    obtain ⟨hd, hm⟩ := ordered_cons.mp h
    unfold PathMap.insertWith
    split
    · next hsame =>
      refine ordered_cons.mpr ⟨fun q hq => ?_, hm⟩
      rcases hmerge d with heq | heq
      · rw [heq]
        exact hd q hq
      · rw [heq, before_congr hsame (same_refl q)]
        exact hd q hq
    · next hsame =>
      split
      · next hbefore =>
        refine ordered_cons.mpr ⟨fun q hq => ?_, h⟩
        rcases List.mem_cons.mp hq with rfl | hq
        · exact hbefore
        · exact before_trans hbefore (hd q hq)
      · next hbefore =>
        refine ordered_cons.mpr ⟨fun q hq => ?_, ih hm⟩
        rcases mem_paths_insertWith hmerge hq with rfl | hq
        · exact before_total (by simpa using hsame) (by simpa using hbefore)
        · exact hd q hq

theorem ordered_ofList (es : List (String × α)) : (PathMap.ofList es).Ordered := by
  have hfold : ∀ (es : List (String × α)) (m : PathMap α), m.Ordered →
      (es.foldl (fun m e => m.put e.1 e.2) m).Ordered := by
    intro es
    induction es with
    | nil => exact fun m hm => hm
    | cons e es ih => exact fun m hm => ih _ (hm.insertWith fun _ => .inr rfl)
  exact hfold es [] List.Pairwise.nil

/-! ## Looking up and setting -/

theorem get?_cons (q : String) (d : String × α) (m : PathMap α) :
    PathMap.get? q (d :: m) = if same q d.1 = true then some d.2 else PathMap.get? q m := by
  unfold PathMap.get?
  rw [List.find?_cons]
  split
  · next hsame => simp [hsame]
  · next hsame => simp [hsame]

theorem get?_set (path q : String) (value : α) (m : PathMap α) :
    (PathMap.set path value m).get? q =
      if same q path = true then some value else PathMap.get? q m := by
  induction m with
  | nil => simp [PathMap.set, PathMap.insertWith, get?_cons]
  | cons d m ih =>
    have hset : PathMap.set path value (d :: m) =
        if same path d.1 = true then (d.1, value) :: m
        else if before path d.1 = true then (path, value) :: d :: m
        else d :: PathMap.set path value m := rfl
    rw [hset]
    by_cases hpath : same path d.1 = true
    · rw [if_pos hpath, get?_cons, get?_cons]
      by_cases hq : same q path = true
      · rw [if_pos hq, if_pos (same_trans hq hpath)]
      · have hqd : ¬ same q d.1 = true := fun h => hq (same_trans h (same_symm hpath))
        rw [if_neg hq, if_neg hqd, if_neg hqd]
    · rw [if_neg hpath]
      by_cases hbefore : before path d.1 = true
      · rw [if_pos hbefore, get?_cons]
      · rw [if_neg hbefore, get?_cons, get?_cons, ih]
        by_cases hq : same q path = true
        · have hqd : ¬ same q d.1 = true := fun h => hpath (same_trans (same_symm hq) h)
          rw [if_pos hq, if_neg hqd, if_pos hq]
        · rw [if_neg hq, if_neg hq]

theorem paths_set {path : String} {m : PathMap α} (hm : m.Ordered) (hpath : path ∈ m.paths)
    (value : α) : (PathMap.set path value m).paths = m.paths := by
  induction m with
  | nil => exact absurd hpath List.not_mem_nil
  | cons d m ih =>
    obtain ⟨hd, hm'⟩ := ordered_cons.mp hm
    unfold PathMap.set PathMap.insertWith
    rcases List.mem_cons.mp hpath with rfl | hmem
    · rw [if_pos (same_refl _)]
      rfl
    · have hbefore := hd path hmem
      have hsame : ¬ same path d.1 = true := by
        intro h
        exact absurd (same_symm h) (by simp [not_same_of_before hbefore])
      have hnot : ¬ before path d.1 = true := by
        intro h
        have hself := not_same_of_before (before_trans hbefore h)
        exact absurd (same_refl d.1) (by simp [hself])
      rw [if_neg hsame, if_neg hnot]
      exact congrArg (d.1 :: ·) (ih hm' hmem)

theorem exists_get? {path : String} {m : PathMap α} (h : path ∈ m.paths) :
    ∃ value, PathMap.get? path m = some value := by
  obtain ⟨e, he, rfl⟩ := List.mem_map.mp h
  have hsome : (m.find? fun d => same e.1 d.1).isSome := by
    rw [List.find?_isSome]
    exact ⟨e, he, same_refl e.1⟩
  obtain ⟨d, hd⟩ := Option.isSome_iff_exists.mp hsome
  exact ⟨d.2, by rw [PathMap.get?, hd]; rfl⟩

end PathMap

end CastGuard
