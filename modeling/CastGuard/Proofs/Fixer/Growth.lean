/-
# `CastGuard.Proofs.Fixer.Growth` — no fix is lost

Whether a script has changed is found out by comparing its text before and after, while the fixes
are counted as they are made.  The two agree: a text stays as it is exactly if no fix was made
(`fix_text_eq_iff`).

That a text without a fix stays is plain.  For the converse one rule must not undo what an earlier
one did, and no sum of changes may cancel out.  What rules this out is the ink of a text, the number
of its characters that are not blank: every fix adds to it, whichever rule makes it.  The length of
the text would not do, since an accessor drops the blanks in front of a default and may well be
shorter than the call.
-/
import CastGuard.Proofs.Downcast.Lines
import CastGuard.Proofs.Lookup.Rematch
import CastGuard.Fixer

namespace CastGuard

open CastGuard.Text

/-! ## Ink -/

/-- The number of characters that are not blank. -/
def ink (cs : List Char) : Nat := cs.countP fun c => !isBlank c

@[simp] theorem ink_nil : ink [] = 0 := rfl

@[simp] theorem ink_append (cs ds : List Char) : ink (cs ++ ds) = ink cs + ink ds :=
  List.countP_append

@[simp] theorem ink_cons (c : Char) (cs : List Char) :
    ink (c :: cs) = (if isBlank c then 0 else 1) + ink cs := by
  rw [ink, List.countP_cons, Nat.add_comm]
  cases isBlank c <;> rfl

theorem ink_of_isBlank {cs : List Char} (h : ∀ c ∈ cs, isBlank c = true) : ink cs = 0 := by
  rw [ink, List.countP_eq_zero]
  intro c hc
  simp [h c hc]

theorem ink_pos {lib : List Char} (h : isDottedIdentifier lib = true) : 0 < ink lib := by
  obtain ⟨c, cs, rfl⟩ := List.exists_cons_of_ne_nil (dottedIdentifier_ne_nil h)
  have hname := isNameChar_of_mem h c List.mem_cons_self
  have hblank : isBlank c = false := by
    rw [← Bool.not_eq_true]
    intro hblank
    exact absurd hname (by simp [isNameChar_of_isBlank hblank])
  rw [ink_cons, hblank, if_neg Bool.false_ne_true]
  omega

@[simp] theorem ink_reverse (cs : List Char) : ink cs.reverse = ink cs := List.countP_reverse

@[simp] theorem ink_trimFront (cs : List Char) : ink (trimFront cs) = ink cs := by
  conv_rhs => rw [← List.takeWhile_append_dropWhile (p := isBlank) (l := cs)]
  have hblank : ∀ c ∈ cs.takeWhile isBlank, isBlank c = true :=
    List.all_eq_true.mp List.all_takeWhile
  rw [ink_append, ink_of_isBlank hblank, Nat.zero_add]
  rfl

@[simp] theorem ink_trim (cs : List Char) : ink (trim cs) = ink cs := by
  simp [trim, trimBack]

/-- Replacing every find by a text with more ink, if it is among those that `grows` singles out, and
with no less otherwise, adds ink for each of the former. -/
theorem ink_render {α : Type} {spell spell' : α → List Char} {grows : α → Bool}
    {ps : List (Piece α)}
    (h : ∀ a ∈ finds ps, ink (spell a) + (if grows a then 1 else 0) ≤ ink (spell' a)) :
    ink (render spell ps) + ((finds ps).filter grows).length ≤ ink (render spell' ps) := by
  induction ps with
  | nil => simp
  | cons p ps ih =>
    cases p with
    | kept c =>
      have := ih h
      simp only [render_kept, finds_kept, ink_cons]
      omega
    | found a =>
      rw [finds_found, List.forall_mem_cons] at h
      have hlater := ih h.2
      have hfind := h.1
      simp only [render_found, finds_found, ink_append, List.filter_cons]
      split
      · simp only [if_pos ‹_›] at hfind
        rw [List.length_cons]
        omega
      · simp only [if_neg ‹_›] at hfind
        omega

theorem render_congr {α : Type} {spell spell' : α → List Char} {ps : List (Piece α)}
    (h : ∀ a ∈ finds ps, spell a = spell' a) : render spell ps = render spell' ps := by
  induction ps with
  | nil => rfl
  | cons p ps ih =>
    cases p with
    | kept c => rw [render_kept, render_kept, ih h]
    | found a =>
      rw [finds_found, List.forall_mem_cons] at h
      rw [render_found, render_found, ih h.2, h.1]

/-! ## Single fixes -/

section Lookups

open CastGuard.Lookup

/-- A default that is passed on has the ink of the one that was written, but for the comma. -/
theorem ink_writtenArgument_le (k : Lookup.Kind) {c : Call} (hc : c.Fits) :
    ink (writtenArgument c.argument) ≤ ink (c.default k) + 1 := by
  cases harg : c.argument with
  | none => simp [writtenArgument]
  | some a =>
    have hblanks := ink_of_isBlank (hc.argument a harg).1
    have hcomma : isBlank ',' = false := by decide
    simp only [writtenArgument, Argument.written, Call.default, harg, ink_cons, ink_append, hcomma,
      hblanks, if_neg Bool.false_ne_true]
    cases hvalue : a.value with
    | nil => simp
    | cons d ds =>
      simp only [List.isEmpty_cons, if_neg Bool.false_ne_true]
      omega

theorem ink_written_lt_typed {lib : String} (hlib : isDottedIdentifier lib.toList = true)
    (k : Lookup.Kind)
    {c : Call} (hc : c.Fits) : ink (c.written k) < ink (c.typed lib k) := by
  have hpos := ink_pos hlib
  have hargument := ink_writtenArgument_le k hc
  have hname : ink k.wrapper.toList + 4 ≤ ink k.accessor.toList := by
    cases k <;> decide
  have hwritten : ink (c.written k) = ink k.wrapper.toList + ink c.container + ink c.key +
      ink (writtenArgument c.argument) + 10 := by
    have hget : ink ".get(\"".toList = 6 := by decide
    have hclose : ink "))".toList = 2 := by decide
    have hquote : isBlank '"' = false := by decide
    have hopen : isBlank '(' = false := by decide
    simp only [Call.written, ink_append, ink_cons, hget, hclose, hquote, hopen,
      if_neg Bool.false_ne_true]
    omega
  have htyped : ink (c.typed lib k) = ink lib.toList + ink k.accessor.toList + ink c.container +
      ink c.key + ink (c.default k) + 7 := by
    have hbefore : ink ", \"".toList = 2 := by decide
    have hbehind : ink "\", ".toList = 2 := by decide
    have hdot : isBlank '.' = false := by decide
    have hopen : isBlank '(' = false := by decide
    have hclose : isBlank ')' = false := by decide
    simp only [Call.typed, ink_append, ink_cons, ink_nil, hbefore, hbehind, hdot, hopen, hclose,
      if_neg Bool.false_ne_true]
    omega
  omega

end Lookups

theorem ink_written_lt_guarded (g : Downcast.Guard) (s : Downcast.Statement) :
    ink s.written < ink (s.guarded g) := by
  have has : ink " as ".toList = 2 := by decide
  have hvar : ink "var ".toList = 3 := by decide
  simp only [Downcast.Statement.written, Downcast.Cast.written, Downcast.Statement.guarded,
    Downcast.Statement.holding, Downcast.Statement.testing, ink_append, ink_trim, has, hvar]
  omega

/-! ## Rules -/

/-- Every fix of the rule adds ink, and without a fix nothing changes. -/
structure Rule.Inks (r : Rule) : Prop where
  grows : ∀ cs, ink cs + r.fixes cs ≤ ink (r.text cs)
  idle : ∀ cs, r.fixes cs = 0 → r.text cs = cs

theorem Rule.inks_lookup {lib : String} (hlib : isDottedIdentifier lib.toList = true)
    (k : Lookup.Kind) :
    (Rule.lookup (.ofKind lib k)).Inks := by
  refine ⟨fun cs => ?_, fun cs hfixes => ?_⟩
  · have hdecomposes := Lookup.decomposes_pieces lib k cs
    have hrender : ink (render (Lookup.Call.written k) ((Lookup.Rule.ofKind lib k).pieces cs)) +
        ((finds ((Lookup.Rule.ofKind lib k).pieces cs)).filter fun _ => true).length ≤
          ink ((Lookup.Rule.ofKind lib k).text cs) :=
      ink_render fun c hc => ink_written_lt_typed hlib k (hdecomposes.fits c hc)
    rwa [hdecomposes.spelled, List.filter_true] at hrender
  · exact Lookup.text_of_not_hasCall (Lookup.fixes_eq_zero_iff.mp hfixes)

theorem Rule.inks_downcast (r : Downcast.Rule) : (Rule.downcast r).Inks := by
  refine ⟨fun cs => ?_, fun cs hfixes => ?_⟩
  · have hrender : ink (render Downcast.Statement.written (r.pieces cs)) +
        ((finds (r.pieces cs)).filter Downcast.Statement.consistent).length ≤
          ink (render r.replace (r.pieces cs)) := by
      refine ink_render fun s _ => ?_
      unfold Downcast.Rule.replace
      split
      · exact ink_written_lt_guarded r.guard s
      · exact Nat.le_refl _
    rwa [r.render_pieces] at hrender
  · -- what is found is left as it is
    have hnone : ∀ s ∈ finds (r.pieces cs), s.consistent = false := by
      intro s hs
      have hfilter := List.filter_eq_nil_iff.mp (List.length_eq_zero_iff.mp hfixes) s hs
      simpa using hfilter
    calc r.text cs = render Downcast.Statement.written (r.pieces cs) := by
          refine render_congr fun s hs => ?_
          rw [Downcast.Rule.replace, hnone s hs]
          rfl
      _ = cs := r.render_pieces cs

theorem Style.Sound.inks {s : Style} (hs : s.Sound) : ∀ r ∈ s.rules, r.Inks := by
  obtain ⟨hlib, -⟩ := s.sound_iff.mp hs
  intro r hr
  rcases List.mem_append.mp hr with hr | hr
  · obtain ⟨q, hq, rfl⟩ := List.mem_map.mp hr
    obtain ⟨k, -, rfl⟩ := List.mem_map.mp hq
    exact Rule.inks_lookup hlib k
  · obtain ⟨q, -, rfl⟩ := List.mem_map.mp hr
    exact Rule.inks_downcast q

/-! ## All rules in turn -/

section Trails

variable {rs : List Rule} (hrs : ∀ r ∈ rs, r.Inks)
include hrs

theorem ink_afterRules (cs : List Char) :
    ink cs + trailFixes (trail rs cs) ≤ ink (afterRules rs cs) := by
  induction rs generalizing cs with
  | nil => exact Nat.le_refl _
  | cons r rs ih =>
    obtain ⟨hr, hlater⟩ := List.forall_mem_cons.mp hrs
    calc ink cs + trailFixes (trail (r :: rs) cs)
        = ink cs + r.fixes cs + trailFixes (trail rs (r.text cs)) := by
          rw [trailFixes_trail_cons, Nat.add_assoc]
      _ ≤ ink (r.text cs) + trailFixes (trail rs (r.text cs)) := by
          have := hr.grows cs
          omega
      _ ≤ ink (afterRules rs (r.text cs)) := ih hlater _

theorem afterRules_idle {cs : List Char} (h : trailFixes (trail rs cs) = 0) :
    afterRules rs cs = cs := by
  induction rs generalizing cs with
  | nil => rfl
  | cons r rs ih =>
    obtain ⟨hr, hlater⟩ := List.forall_mem_cons.mp hrs
    rw [trailFixes_trail_cons, Nat.add_eq_zero_iff] at h
    rw [afterRules_cons]
    rw [hr.idle cs h.1] at h ⊢
    exact ih hlater h.2

theorem afterRules_eq_self_iff {cs : List Char} :
    afterRules rs cs = cs ↔ trailFixes (trail rs cs) = 0 := by
  constructor
  · intro h
    have hink := ink_afterRules hrs cs
    rw [h] at hink
    omega
  · exact afterRules_idle hrs

end Trails

theorem fix_text_eq_iff {s : Style} (hs : s.Sound) (text : String) :
    ((Fixer.mk s.rules).fix text).text = text ↔ ((Fixer.mk s.rules).fix text).fixes = 0 := by
  have hfixes : ((Fixer.mk s.rules).fix text).fixes = trailFixes (trail s.rules text.toList) := rfl
  rw [Fixer.fix_text, hfixes, ← afterRules_eq_self_iff hs.inks, ← String.toList_inj,
    String.toList_ofList]

/-! ## Fixes by rule -/

theorem total_trailTally (steps : List Step) : (trailTally steps).total = trailFixes steps := by
  have hfold : ∀ t : Tally,
      ((steps.filter (0 < ·.fixes)).foldl (fun t s => t.add s.rule s.fixes) t).total =
      t.total + trailFixes steps := by
    induction steps with
    | nil => exact fun t => rfl
    | cons step steps ih =>
      intro t
      by_cases hpos : 0 < step.fixes
      · rw [List.filter_cons_of_pos (by simpa using hpos), List.foldl_cons, ih, Tally.total_add]
        simp only [trailFixes, sumOf_cons]
        omega
      · rw [List.filter_cons_of_neg (by simpa using hpos), ih]
        simp only [trailFixes, sumOf_cons]
        omega
  have hall := hfold []
  rwa [show Tally.total [] = 0 from rfl, Nat.zero_add] at hall

theorem total_byRule (f : Fixer) (text : String) : (f.fix text).byRule.total = (f.fix text).fixes :=
  total_trailTally _

end CastGuard
