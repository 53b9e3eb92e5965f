/-
# `CastGuard.Proofs.Downcast.Convergence` — when guarding casts converges

A second pass over a guarded text has nothing to do, whatever the text is, unless the null literal
ends in a cast of its own.  `CastGuard.Proofs.Downcast.Settled` has one half: a literal that does
not end in a cast (`Guard.Settles`) leaves nothing to guard.  Here is the other half, and with it
the exact condition, in a form that can be read off the style (`downcast_pass_converges_iff`).

If the literal ends in a cast, every testing line ends in that cast, and behind its indent it still
starts with the destination of the statement it came from.  So it is a statement of the same form
again, with the test as its value (`reads_testing`), and any text with a return statement has one.
-/
import CastGuard.Proofs.Downcast.Settled
import Mathlib.Data.List.DropRight

namespace CastGuard.Downcast

open CastGuard.Text

/-! ## Literals that end in a cast -/

section Literal

variable {types : List (List Char)} (htypes : ∀ t ∈ types, isIdentifier t = true)
include htypes

/-- A text ends in a cast and trailing blanks exactly if it ends in the cast when these are cut off.
-/
theorem exists_cast_iff_suffix {t cs : List Char} (ht : t ∈ types) :
    (∃ v w, (∀ c ∈ w, isTrailing c = true) ∧ cs = v ++ (" as ".toList ++ (t ++ w))) ↔
      " as ".toList ++ t <:+ cs.rdropWhile isTrailing := by
  have hcut : cs.rdropWhile isTrailing ++ cs.rtakeWhile isTrailing = cs :=
    List.rdropWhile_append_rtakeWhile
  have hblank : ∀ c ∈ cs.rtakeWhile isTrailing, isTrailing c = true :=
    fun c hc => List.mem_rtakeWhile_imp hc
  constructor
  · rintro ⟨v, w, hw, heq⟩
    have hlast : ∀ c, (cs.rdropWhile isTrailing).getLast? = some c → isTrailing c = false := by
      intro c hc
      have hne : cs.rdropWhile isTrailing ≠ [] := by
        rintro hnil
        exact absurd hc (by simp [hnil])
      rw [List.getLast?_eq_some_getLast hne, Option.some.injEq] at hc
      simpa [← hc] using List.rdropWhile_last_not isTrailing cs hne
    have hends : cs.rdropWhile isTrailing ++ cs.rtakeWhile isTrailing =
        (v ++ (" as ".toList ++ t)) ++ w := by
      rw [hcut, heq]
      simp
    obtain ⟨hfront, -⟩ := append_run_inj hblank hlast hw (getLast?_type htypes ht) hends
    exact ⟨v, hfront.symm⟩
  · rintro ⟨v, hv⟩
    refine ⟨v, cs.rtakeWhile isTrailing, hblank, ?_⟩
    conv_lhs => rw [← hcut, ← hv]
    simp

/-- The null literal settles the pass exactly if it does not end in a cast, with the blank before it
taken along. -/
theorem Guard.settles_iff {g : Guard} :
    g.Settles types ↔
      ∀ t ∈ types, ¬ " as ".toList ++ t <:+ (' ' :: g.null.toList).rdropWhile isTrailing := by
  constructor
  · intro h t ht hsuffix
    obtain ⟨v, w, hw, heq⟩ := (exists_cast_iff_suffix htypes ht).mpr hsuffix
    exact h t ht v w hw heq
  · intro h t ht v w hw heq
    exact h t ht ((exists_cast_iff_suffix htypes ht).mp ⟨v, w, hw, heq⟩)

end Literal

/-! ## Testing lines that are read again -/

theorem reads_testing {types : List (List Char)} (htypes : ∀ t ∈ types, isIdentifier t = true)
    {g : Guard} {s : Statement} (hs : s.Fits types) (hnull : '\n' ∉ g.null.toList)
    {t v w : List Char} (ht : t ∈ types) (hw : ∀ c ∈ w, isTrailing c = true)
    (hcast : ' ' :: g.null.toList = v ++ (" as ".toList ++ (t ++ w))) :
    ∃ value, Reads s.destination.form types (s.testing g)
      ⟨s.indent, s.destination, value, t, w ++ s.cast.trailing⟩ := by
  -- the value is the test, up to where the literal's own cast begins
  refine ⟨s.destination.temporary ++ (" if ".toList ++ (s.destination.temporary ++ (" is ".toList ++
    (s.cast.type ++ (" else".toList ++ v))))), rfl, ⟨hs.indent, hs.destination, ?_, ?_, ht, ?_⟩, ?_⟩
  · obtain ⟨rest, hrest⟩ := s.destination.temporary_head
    simp [hrest]
  · have htemporary := Destination.temporary_line hs.destination
    have htype := notMem_identifier (htypes _ hs.cast.type_mem) (c := '\n') (by decide)
    have hv : '\n' ∉ v := by
      intro hmem
      have hliteral : '\n' ∈ ' ' :: g.null.toList := hcast ▸ List.mem_append_left _ hmem
      exact hnull (by simpa using hliteral)
    simp [htemporary, htype, hv]
  · intro c hc
    exact (List.mem_append.mp hc).elim (hw c) (hs.cast.trailing c)
  · have htail : ' ' :: (g.null.toList ++ s.cast.trailing) =
        v ++ (" as ".toList ++ (t ++ (w ++ s.cast.trailing))) := by
      rw [← List.cons_append, hcast]
      simp
    simp [Statement.written, Cast.written, Statement.testing, htail]

theorem not_reads_declaration_return {types : List (List Char)} {indent body : List Char}
    {u : Statement}
    (hindent : ∀ c ∈ indent, isIndent c = true) :
    ¬ Reads .declaration types (indent ++ ("return ".toList ++ body)) u := by
  intro h
  have hbody : ∀ c, ("return ".toList ++ body).head? = some c → isIndent c = false := by
    intro c hc
    obtain rfl : 'r' = c := by simpa using hc
    rfl
  obtain ⟨-, heq⟩ := h.body_eq hindent hbody
  have hform := h.form
  rcases hd : u.destination with ⟨name, t⟩ | _ | name
  · rw [hd] at heq
    exact absurd heq (by simp)
  · exact absurd (hd ▸ hform) (by simp [Destination.form])
  · exact absurd (hd ▸ hform) (by simp [Destination.form])

section Texts

variable {g : Guard} {types : List String} (hg : g.Usable types)
include hg

theorem exists_passFixes_pos {line : List Char} (hline : '\n' ∉ line) {f : Form} {p : CastLine}
    (h : HasForm f (types.map String.toList) line p) : ∃ f', 0 < passFixes g types f' line := by
  obtain ⟨⟨f', text⟩, hout⟩ := exists_becomes g (types.map String.toList) line
  obtain ⟨-, hcount⟩ := pass_of_becomes hg hline hout
  cases f' with
  | none =>
    cases hout with
    | kept hno => exact absurd h (hno f p)
  | some f' => exact ⟨f', by simp [hcount]⟩

/-- Guarding the cast of a return statement leaves a further cast, if the null literal ends in one.
-/
theorem exists_not_quiet_passText {t v w : List Char} (ht : t ∈ types.map String.toList)
    (hw : ∀ c ∈ w, isTrailing c = true)
    (hcast : ' ' :: g.null.toList = v ++ (" as ".toList ++ (t ++ w))) :
    ∃ cs, ¬ Quiet g types (passText g types cs) := by
  let s : Statement := ⟨[], .caller, ['x'], t, []⟩
  have hs : s.Fits (types.map String.toList) :=
    ⟨by simp [s], trivial, ⟨by simp [s], by simp [s], ht, by simp [s]⟩⟩
  have hline : '\n' ∉ s.written := hs.written_line hg.identifiers
  have hbecomes : Becomes g (types.map String.toList) s.written
      (some .returning, s.castLine.guarded g) := by
    refine .returned (fun q hq => ?_) ((hasForm_iff hline).mpr ⟨s, ⟨⟨rfl, hs, rfl⟩, rfl⟩, rfl⟩)
    obtain ⟨u, ⟨hu, -⟩, -⟩ := (hasForm_iff hline).mp hq
    exact not_reads_declaration_return hs.indent hu
  -- the second of the two lines is counted again
  have htestLine := s.testing_line hg.identifiers hs hg.null
  obtain ⟨value, hreads⟩ := reads_testing hg.identifiers hs hg.null ht hw hcast
  obtain ⟨f, hpos⟩ := exists_passFixes_pos hg htestLine
    ((hasForm_iff htestLine).mpr ⟨_, ⟨hreads, rfl⟩, rfl⟩)
  refine ⟨s.written, fun hquiet => ?_⟩
  have hzero := hquiet.2 f
  rw [(pass_of_becomes hg hline hbecomes).1, s.guarded_castLine, s.guarded_eq_lines,
    passFixes_append hg] at hzero
  omega

end Texts

/-! ## The pass of a style -/

/-- A second pass over the casts of a text makes no fix and changes nothing, for every text, exactly
if the null literal, behind a blank and without trailing blanks, does not end in a cast to a known
type. -/
theorem downcast_pass_converges_iff {s : Style} (hs : s.Sound) (hnull : '\n' ∉ s.null.toList) :
    (∀ cs, trailFixes (trail s.downcastRules (afterRules s.downcastRules cs)) = 0 ∧
        afterRules s.downcastRules (afterRules s.downcastRules cs) =
          afterRules s.downcastRules cs) ↔
      ∀ t ∈ s.types,
        ¬ " as ".toList ++ t.toList <:+ (' ' :: s.null.toList).rdropWhile isTrailing := by
  by_cases hne : s.types = []
  · -- there is no rule
    obtain ⟨hrules, -⟩ := pass_without_types hne []
    simp [hrules, hne, trail, trailFixes, afterRules]
  · have hg := usable_of_sound hs hnull hne
    obtain ⟨-, -, htrim, hholder, -⟩ := s.sound_iff.mp hs
    have hfresh : s.guard.holder.toList ∉ s.types.map String.toList := by
      intro hmem
      obtain ⟨t, ht, heq⟩ := List.mem_map.mp hmem
      obtain rfl : t = s.holder := String.toList_inj.mp heq
      exact hholder ht
    have hsettles := Guard.settles_iff hg.identifiers (g := s.guard)
    simp only [List.forall_mem_map] at hsettles
    rw [← show s.guard.null = s.null from rfl, ← hsettles]
    constructor
    · intro hquiet t ht v w hw hcast
      obtain ⟨cs, hcs⟩ := exists_not_quiet_passText hg ht hw hcast
      rw [← afterRules_downcastRules hne, quiet_iff hne] at hcs
      exact hcs (hquiet cs)
    · intro hsettled cs
      rw [← quiet_iff hne, afterRules_downcastRules hne]
      exact quiet_passText hg hfresh htrim hsettled cs

/-- The standard style converges, and one whose null literal is itself a cast does not. -/
theorem downcast_pass_converges_iff_standard :
    Style.standard.Sound ∧ '\n' ∉ Style.standard.null.toList ∧
    (∀ cs, trailFixes (trail Style.standard.downcastRules
        (afterRules Style.standard.downcastRules cs)) = 0) ∧
    (Style.mk "DictUtils" "Resource" "as ItemData\t" ["ItemData"]).Sound ∧
    ∃ cs, ¬ (
      trailFixes (trail
        (Style.mk "DictUtils" "Resource" "as ItemData\t" ["ItemData"]).downcastRules
        (afterRules
          (Style.mk "DictUtils" "Resource" "as ItemData\t" ["ItemData"]).downcastRules cs)) = 0 ∧
      afterRules (Style.mk "DictUtils" "Resource" "as ItemData\t" ["ItemData"]).downcastRules
        (afterRules
          (Style.mk "DictUtils" "Resource" "as ItemData\t" ["ItemData"]).downcastRules cs) =
        afterRules
          (Style.mk "DictUtils" "Resource" "as ItemData\t" ["ItemData"]).downcastRules cs) := by
  have hnull : '\n' ∉ Style.standard.null.toList := by decide
  have hsound :
    (Style.mk "DictUtils" "Resource" "as ItemData\t" ["ItemData"]).Sound := by decide +kernel
  refine ⟨Style.standard_sound, hnull, fun cs => ?_, hsound, ?_⟩
  · exact ((downcast_pass_converges_iff Style.standard_sound hnull).mpr (by decide +kernel) cs).1
  · rw [← not_forall, downcast_pass_converges_iff hsound (by decide)]
    exact fun h => h "ItemData" (by decide) (by decide +kernel)

end CastGuard.Downcast
