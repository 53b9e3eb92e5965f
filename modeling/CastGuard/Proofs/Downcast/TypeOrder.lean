/-
# `CastGuard.Proofs.Downcast.TypeOrder` — the known types as a set

A rule tries its types in their given order and takes the first that completes the line.  For texts
in general the order shows: of `Item` and `Item` with a blank behind it, the first one tried decides
whether the blank is part of the type.

A line has one reading at most if the types are identifiers, whatever their order.  So the rule for
a list of identifiers depends on its members alone, and two sound styles that differ in the order
and the repetitions of their types fix every text alike (`Style.Akin.fix`).
-/
import CastGuard.Proofs.Downcast.AnyOrder
import CastGuard.Proofs.Downcast.TypeByType
import CastGuard.Proofs.Fixer.Stability

namespace CastGuard.Downcast

open CastGuard.Text

/-! ## Statements -/

theorem eq_nil_iff_of_sameMembers {α : Type} {as bs : List α} (hsame : ∀ a, a ∈ as ↔ a ∈ bs) :
    as = [] ↔ bs = [] := by
  simp only [List.eq_nil_iff_forall_not_mem, hsame]

section Statements

variable {types types' : List (List Char)}

theorem Statement.Fits.mono {s : Statement} (hsub : ∀ t ∈ types, t ∈ types') (h : s.Fits types) :
    s.Fits types' :=
  (Reads.mono hsub ⟨rfl, h, rfl⟩).fits

theorem statementAt?_of_sameTypes (htypes : ∀ t ∈ types, isIdentifier t = true)
    (hsame : ∀ t, t ∈ types ↔ t ∈ types') (f : Form) :
    statementAt? f types = statementAt? f types' := by
  have htypes' : ∀ t ∈ types', isIdentifier t = true := fun t ht => htypes t ((hsame t).mpr ht)
  have hfits : ∀ s : Statement, s.Fits types ↔ s.Fits types' := fun s =>
    ⟨.mono fun t => (hsame t).mp, .mono fun t => (hsame t).mpr⟩
  funext before cs
  ext s
  rw [statementAt?_eq_some_iff htypes, statementAt?_eq_some_iff htypes', hfits]

end Statements

/-! ## Rules -/

section Rules

variable {g : Guard} {types types' : List String}
    (htypes : ∀ t ∈ types, isIdentifier t.toList = true)
  (hsame : ∀ t, t ∈ types ↔ t ∈ types')
include htypes hsame

theorem Rule.pieces_of_sameTypes (f : Form) (cs : List Char) :
    (Rule.mk f g types).pieces cs = (Rule.mk f g types').pieces cs := by
  have hnil := eq_nil_iff_of_sameMembers hsame
  by_cases hne : types = []
  · rw [hne, hnil.mp hne]
  · have hidentifiers : ∀ t ∈ types.map String.toList, isIdentifier t = true :=
      List.forall_mem_map.mpr htypes
    have hmembers : ∀ t, t ∈ types.map String.toList ↔ t ∈ types'.map String.toList := by
      simp only [List.mem_map, hsame, implies_true]
    rw [Rule.pieces, Rule.pieces, Rule.typeTexts, Rule.typeTexts, if_neg (by simpa using hne),
      if_neg (by simpa using mt hnil.mpr hne), statementAt?_of_sameTypes hidentifiers hmembers]

theorem Rule.text_of_sameTypes (f : Form) (cs : List Char) :
    (Rule.mk f g types).text cs = (Rule.mk f g types').text cs := by
  rw [Rule.text, Rule.text, Rule.pieces_of_sameTypes htypes hsame]
  rfl

theorem Rule.fixes_of_sameTypes (f : Form) (cs : List Char) :
    (Rule.mk f g types).fixes cs = (Rule.mk f g types').fixes cs := by
  rw [Rule.fixes, Rule.fixes, Rule.pieces_of_sameTypes htypes hsame]

theorem trail_formRules_of_sameTypes (fs : List Form) (cs : List Char) :
    trail (formRules g types fs) cs = trail (formRules g types' fs) cs := by
  induction fs generalizing cs with
  | nil => rfl
  | cons f fs ih =>
    change Step.mk f.ruleId ((Rule.mk f g types).fixes cs) ((Rule.mk f g types).text cs) ::
        trail (formRules g types fs) ((Rule.mk f g types).text cs) = _
    rw [ih, Rule.text_of_sameTypes htypes hsame, Rule.fixes_of_sameTypes htypes hsame]
    rfl

end Rules

/-- A type with a blank behind it is no identifier, and its place among the types shows in the text.
-/
example :
    (Rule.mk .returning ⟨"Res", "0"⟩ ["Item", "Item "]).text "return x as Item ".toList =
        "var _return_res: Res = x\nreturn _return_res if _return_res is Item else 0 ".toList ∧
      (Rule.mk .returning ⟨"Res", "0"⟩ ["Item ", "Item"]).text "return x as Item ".toList =
        "var _return_res: Res = x\nreturn _return_res if _return_res is Item  else 0".toList := by
  decide +kernel

end CastGuard.Downcast

namespace CastGuard

open CastGuard.Text CastGuard.Downcast

/-! ## Styles -/

/-- Two styles that differ in the order and the repetitions of their types at most. -/
structure Style.Akin (s s' : Style) : Prop where
  lib : s.lib = s'.lib
  holder : s.holder = s'.holder
  null : s.null = s'.null
  types : ∀ t, t ∈ s.types ↔ t ∈ s'.types

section Akin

variable {s s' : Style} (h : s.Akin s')
include h

theorem Style.Akin.sound_iff : s.Sound ↔ s'.Sound := by
  rw [s.sound_iff, s'.sound_iff]
  simp only [h.lib, h.holder, h.null, h.types]

theorem Style.Akin.trail_downcastRules (hs : s.Sound) (cs : List Char) :
    trail s.downcastRules cs = trail s'.downcastRules cs := by
  obtain ⟨-, -, -, -, htypes⟩ := s.sound_iff.mp hs
  have hnil := eq_nil_iff_of_sameMembers h.types
  by_cases hne : s.types = []
  · rw [(pass_without_types hne cs).1, (pass_without_types (hnil.mp hne) cs).1]
  · have hguard : s.guard = s'.guard := by rw [Style.guard, Style.guard, h.holder, h.null]
    rw [downcastRules_eq hne, downcastRules_eq (mt hnil.mpr hne), hguard]
    exact trail_formRules_of_sameTypes htypes h.types Form.all cs

/-- Akin sound styles fix every text alike: the same text, with the same fixes by the same rules. -/
theorem Style.Akin.fix (hs : s.Sound) (text : String) :
    (Fixer.mk s.rules).fix text = (Fixer.mk s'.rules).fix text := by
  have hlookup : s.lookupRules = s'.lookupRules := by
    rw [Style.lookupRules, Style.lookupRules, h.lib]
  have htrail : trail s.rules text.toList = trail s'.rules text.toList := by
    rw [Style.rules, Style.rules, trail_append, trail_append, hlookup, h.trail_downcastRules hs]
  rw [Fixer.fix, Fixer.fix, htrail]

end Akin

end CastGuard
