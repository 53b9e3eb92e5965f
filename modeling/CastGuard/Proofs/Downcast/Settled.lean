/-
# `CastGuard.Proofs.Downcast.Settled` — a second pass guards nothing

The three rules for casts leave a text without casts to guard.  Kept lines have no form, by what it
means to be kept.  Of the two lines that guard a cast,

* the holding line declares a variable, but of the holder's type, which is not a known one;
* the testing line ends in ` else null`, so it has a form only if the null literal makes it end in
  a cast.  `Guard.Settles` rules that out.

From lines to texts nothing is needed but that the pass acts line by line.
-/
import CastGuard.Proofs.Downcast.Pass
import Mathlib.Data.List.TakeWhile

namespace CastGuard.Downcast

open CastGuard.Text

/-- No line that ends in the null literal ends in a cast to a known type. -/
def Guard.Settles (g : Guard) (types : List (List Char)) : Prop :=
  ∀ t ∈ types, ∀ v w : List Char, (∀ c ∈ w, isTrailing c = true) →
    ' ' :: g.null.toList ≠ v ++ (" as ".toList ++ (t ++ w))

/-! ## The holding line -/

section Held

variable {types : List (List Char)} {g : Guard} {s u : Statement} (hs : s.Fits types)
include hs

/-- A holding line declares a variable of the holder's type, so of no known one. -/
theorem not_reads_declaration_heldLine
    (htypes : ∀ t ∈ types, ∀ c ∈ t, continuesIdentifier c = true)
    (hholder : isIdentifier g.holder.toList = true) (hfresh : g.holder.toList ∉ types) :
    ¬ Reads .declaration types (s.heldLine g) u := by
  intro h
  have hform := h.form
  have hfits := h.fits.destination
  have hheld : s.heldLine g = s.indent ++ ("var ".toList ++ (s.destination.temporary ++ ':' ::
      ' ' :: (g.holder.toList ++ ' ' :: '=' :: ' ' :: (trim s.cast.value ++
        if s.cast.trailing.getLast? = some '\r' then ['\r'] else [])))) := by
    simp [Statement.heldLine, Statement.holding]
  rw [hheld] at h
  have hbody : ∀ c, ("var ".toList ++ (s.destination.temporary ++ ':' ::
      ' ' :: (g.holder.toList ++ ' ' :: '=' :: ' ' :: (trim s.cast.value ++
        if s.cast.trailing.getLast? = some '\r' then ['\r'] else [])))).head? = some c →
      isIndent c = false := by
    intro c hc
    obtain rfl : 'v' = c := by simpa using hc
    rfl
  obtain ⟨-, heq⟩ := h.body_eq hs.indent hbody
  rcases hd : u.destination with ⟨name, t⟩ | _ | name
  · -- the names end at the colon, the types at the blank
    rw [hd] at heq hfits
    obtain ⟨-, hword, ht⟩ := hfits
    have hwritten : (Destination.variable name t).written ++ u.cast.written = "var ".toList ++
        (name ++ ':' :: ' ' :: (t ++ ' ' :: '=' :: ' ' :: u.cast.written)) := by
      simp
    rw [hwritten] at heq
    have colon : ∀ cs : List Char, ∀ c, (':' :: cs).head? = some c → isWord c = false := by
      intro cs c hc
      obtain rfl : ':' = c := by simpa using hc
      decide
    have blank : ∀ cs : List Char, ∀ c, (' ' :: cs).head? = some c →
        continuesIdentifier c = false := by
      intro cs c hc
      obtain rfl : ' ' = c := by simpa using hc
      decide
    obtain ⟨-, htail⟩ := run_append_inj hword (colon _)
      (Destination.temporary_word hs.destination) (colon _) (List.append_cancel_left heq)
    obtain ⟨htype, -⟩ := run_append_inj (htypes t ht) (blank _)
      (continues_of_mem_identifier hholder) (blank _) (List.cons.inj (List.cons.inj htail).2).2
    exact hfresh (htype ▸ ht)
  · exact absurd (hd ▸ hform) (by simp [Destination.form])
  · exact absurd (hd ▸ hform) (by simp [Destination.form])

theorem not_reads_heldLine {f : Form} (htypes : ∀ t ∈ types, ∀ c ∈ t, continuesIdentifier c = true)
    (hholder : isIdentifier g.holder.toList = true) (hfresh : g.holder.toList ∉ types) :
    ¬ Reads f types (s.heldLine g) u := by
  cases f with
  | declaration => exact not_reads_declaration_heldLine hs htypes hholder hfresh
  | returning => exact not_reads_returning_heldLine hs
  | assignment => exact not_reads_assignment_heldLine hs

end Held

/-! ## The testing line -/

theorem exists_not_trailing {cs : List Char} (h : trim cs ≠ []) :
    ∃ c ∈ cs, isTrailing c = false := by
  by_contra hno
  have hblank : ∀ c ∈ cs, isBlank c = true := by
    intro c hc
    refine isBlank_of_isTrailing ?_
    rw [← Bool.not_eq_false]
    exact fun hfalse => hno ⟨c, hc, hfalse⟩
  have hfront : trimFront cs = [] := List.dropWhile_eq_nil_iff.mpr hblank
  exact h (by rw [trim, hfront]; rfl)

section Testing

variable {types : List (List Char)} (htypes : ∀ t ∈ types, isIdentifier t = true)
include htypes

/-- What ends in ` else`, a blank and a text ends in a cast only if blank and text do. -/
theorem ends_in_cast {front null back v t w : List Char} (hne : trim null ≠ [])
    (hback : ∀ c ∈ back, isTrailing c = true) (ht : t ∈ types)
    (hw : ∀ c ∈ w, isTrailing c = true)
    (h : front ++ (" else".toList ++ ' ' :: (null ++ back)) = v ++ (" as ".toList ++ (t ++ w))) :
    ∃ v' w', (∀ c ∈ w', isTrailing c = true) ∧
      ' ' :: null = v' ++ (" as ".toList ++ (t ++ w')) := by
  obtain ⟨e, he, htrailing⟩ := exists_not_trailing hne
  obtain ⟨core, c, z, rfl, hc, hz⟩ := exists_last_not he htrailing
  -- without the trailing blanks on both sides
  have hlast : ∀ d, (front ++ (" else".toList ++ ' ' :: (core ++ [c]))).getLast? = some d →
      isTrailing d = false := by
    intro d hd
    obtain rfl : c = d := by simpa [List.getLast?_cons] using hd
    exact hc
  have hrun : ∀ d ∈ z ++ back, isTrailing d = true :=
    fun d hd => (List.mem_append.mp hd).elim (hz d) (hback d)
  have heq : (front ++ (" else".toList ++ ' ' :: (core ++ [c]))) ++ (z ++ back) =
      (v ++ (" as ".toList ++ t)) ++ w := by simpa using h
  obtain ⟨hcut, -⟩ := append_run_inj hrun hlast hw (getLast?_type htypes ht) heq
  have inside : ∀ a, ' ' :: (core ++ [c]) = a ++ (" as ".toList ++ t) →
      ∃ v' w', (∀ c ∈ w', isTrailing c = true) ∧
        ' ' :: (core ++ c :: z) = v' ++ (" as ".toList ++ (t ++ w')) := by
    intro a ha
    refine ⟨a, z, hz, ?_⟩
    have := congrArg (· ++ z) ha
    simpa using this
  rw [← List.append_assoc] at hcut
  rcases List.append_eq_append_iff.mp hcut with ⟨a, -, ha⟩ | ⟨a, hfront, ha⟩
  · exact inside a ha
  cases a with
  | nil => exact inside [] ha.symm
  | cons d a =>
    -- the blank before the literal would be the one before the type
    exfalso
    obtain ⟨rfl, htail⟩ : ' ' = d ∧ "as".toList ++ ' ' :: t = a ++ ' ' :: (core ++ [c]) := by
      simpa using ha
    have hblank : ' ' ∉ t := notMem_identifier (htypes t ht) (by decide)
    have hcount := congrArg (List.count ' ') htail
    have ha' : ' ' ∉ a := by
      rw [← List.count_eq_zero]
      have hzero : List.count ' ' t = 0 := List.count_eq_zero.mpr hblank
      have has : List.count ' ' "as".toList = 0 := by decide
      simp only [List.count_append, List.count_cons_self, has, hzero] at hcount
      omega
    obtain ⟨rfl, -⟩ := append_cons_inj (by decide) ha' htail
    have hends := congrArg List.getLast? hfront
    simp at hends

theorem not_reads_testing {f : Form} {g : Guard} {s u : Statement} (hs : s.Fits types)
    (hnull : trim g.null.toList ≠ []) (hsettles : g.Settles types) :
    ¬ Reads f types (s.testing g) u := by
  intro h
  have htesting : s.testing g = (s.indent ++ (s.destination.written ++
      (s.destination.temporary ++ (" if ".toList ++ (s.destination.temporary ++ (" is ".toList ++
        s.cast.type)))))) ++ (" else".toList ++ ' ' :: (g.null.toList ++ s.cast.trailing)) := by
    simp [Statement.testing]
  have hwritten : u.written = (u.indent ++ (u.destination.written ++ u.cast.value)) ++
      (" as ".toList ++ (u.cast.type ++ u.cast.trailing)) := by
    simp [Statement.written, Cast.written]
  have heq := h.written
  rw [htesting, hwritten] at heq
  obtain ⟨v, w, hw, hcast⟩ := ends_in_cast htypes hnull hs.cast.trailing h.fits.cast.type_mem
    h.fits.cast.trailing heq.symm
  exact hsettles _ h.fits.cast.type_mem v w hw hcast

end Testing

/-! ## Texts -/

/-- The pass finds nothing to guard in the text. -/
def Quiet (g : Guard) (types : List String) (cs : List Char) : Prop :=
  passText g types cs = cs ∧ ∀ f, passFixes g types f cs = 0

section Texts

variable {g : Guard} {types : List String} (hg : g.Usable types)
include hg

theorem Quiet.append {front back : List Char} (hfront : Quiet g types front)
    (hback : Quiet g types back) : Quiet g types (front ++ '\n' :: back) := by
  obtain ⟨hfrontText, hfrontFixes⟩ := hfront
  obtain ⟨hbackText, hbackFixes⟩ := hback
  refine ⟨by rw [passText_append hg, hfrontText, hbackText], ?_⟩
  intro f
  rw [passFixes_append hg, hfrontFixes, hbackFixes]

theorem quiet_of_not_hasForm {line : List Char} (hline : '\n' ∉ line)
    (h : ∀ f p, ¬ HasForm f (types.map String.toList) line p) : Quiet g types line := by
  obtain ⟨htext, hfixes⟩ := pass_of_becomes hg hline (.kept h)
  exact ⟨htext, fun f => (hfixes f).trans (if_neg nofun)⟩

theorem quiet_guarded (hfresh : g.holder.toList ∉ types.map String.toList)
    (hnull : trim g.null.toList ≠ []) (hsettles : g.Settles (types.map String.toList))
    {s : Statement} (hs : s.Fits (types.map String.toList)) : Quiet g types (s.guarded g) := by
  rw [s.guarded_eq_lines]
  have hheld := s.heldLine_line hs hg.holder
  have htesting := s.testing_line hg.identifiers hs hg.null
  refine Quiet.append hg (quiet_of_not_hasForm hg hheld ?_) (quiet_of_not_hasForm hg htesting ?_)
  · intro f p hp
    obtain ⟨u, ⟨hu, -⟩, -⟩ := (hasForm_iff hheld).mp hp
    exact not_reads_heldLine hs hg.typeChars hg.holder hfresh hu
  · intro f p hp
    obtain ⟨u, ⟨hu, -⟩, -⟩ := (hasForm_iff htesting).mp hp
    exact not_reads_testing hg.identifiers hs hnull hsettles hu

theorem quiet_of_becomes (hfresh : g.holder.toList ∉ types.map String.toList)
    (hnull : trim g.null.toList ≠ []) (hsettles : g.Settles (types.map String.toList))
    {line : List Char} (hline : '\n' ∉ line) {out : Option Form × List Char}
    (h : Becomes g (types.map String.toList) line out) : Quiet g types out.2 := by
  rcases h.guarded_or_kept with ⟨f, p, hp, rfl⟩ | ⟨hno, rfl⟩
  · obtain ⟨s, hs, -, hguarded, -⟩ := text_of_hasForm hg hline hp
    rw [hguarded]
    exact quiet_guarded hg hfresh hnull hsettles hs
  · exact quiet_of_not_hasForm hg hline hno

theorem quiet_passText (hfresh : g.holder.toList ∉ types.map String.toList)
    (hnull : trim g.null.toList ≠ []) (hsettles : g.Settles (types.map String.toList))
    (cs : List Char) : Quiet g types (passText g types cs) := by
  refine passText_induction hg (R := fun _ left => Quiet g types left) ?_ ?_ cs
  · exact fun line out hline hout => quiet_of_becomes hg hfresh hnull hsettles hline hout
  · exact fun _ _ _ _ hline hrest => hline.append hg hrest

end Texts

theorem quiet_iff {s : Style} (hne : s.types ≠ []) {cs : List Char} :
    Quiet s.guard s.types cs ↔
      trailFixes (trail s.downcastRules cs) = 0 ∧ afterRules s.downcastRules cs = cs := by
  have hsum : trailFixes (trail s.downcastRules cs) =
      sumOf (fun f => passFixes s.guard s.types f cs) Form.all := by
    have hcounts := congrArg (sumOf Prod.snd) (fixes_downcastRules hne cs)
    rwa [sumOf_map, sumOf_map] at hcounts
  have hzero : trailFixes (trail s.downcastRules cs) = 0 ↔
      ∀ f, passFixes s.guard s.types f cs = 0 := by
    rw [hsum]
    constructor
    · intro h f
      cases f <;> simp only [Form.all, sumOf_cons, sumOf_nil] at h <;> omega
    · intro h
      simp [Form.all, h]
  rw [hzero, afterRules_downcastRules hne, Quiet, and_comm]

end CastGuard.Downcast
