/-
# `CastGuard.Proofs.Downcast.TypeByType` — one rule for all types, or one rule for each

A rule of a form looks for all known types at once.  It could as well be split into rules for one
type each, applied one after the other, in any order and some of them more than once: the text and
the number of fixes are the same (`type_by_type`).

* A line that ends in a cast ends in a cast to one type only, so the rules for the other types pass
  it by.
* Once its cast is guarded, no rule for any type finds anything in the two lines, though the value
  that the first one holds may itself end in a cast to another type.

Both are facts about single lines, and all rules work line by line.

The equivalence needs a known type.  The rule for no type at all is not the empty sequence of rules:
it takes the empty text for a type and guards what ends in a bare ` as `
(`no_type_is_the_empty_type`).  A style without types has no rules for casts in the first place.
-/
import CastGuard.Proofs.Downcast.Convergence

namespace CastGuard.Downcast

open CastGuard.Text

/-! ## Rules for single types -/

def typeRules (f : Form) (g : Guard) (ts : List String) : List CastGuard.Rule :=
  ts.map fun t => .downcast ⟨f, g, [t]⟩

theorem afterRules_typeRules_cons (f : Form) (g : Guard) (t : String) (ts : List String)
    (cs : List Char) : afterRules (typeRules f g (t :: ts)) cs =
      afterRules (typeRules f g ts) ((Rule.mk f g [t]).text cs) := afterRules_cons ..

theorem trailFixes_typeRules_cons (f : Form) (g : Guard) (t : String) (ts : List String)
    (cs : List Char) : trailFixes (trail (typeRules f g (t :: ts)) cs) =
      (Rule.mk f g [t]).fixes cs +
        trailFixes (trail (typeRules f g ts) ((Rule.mk f g [t]).text cs)) :=
          trailFixes_trail_cons ..

/-! ## Statements and the types that they need -/

section Types

variable {types types' : List (List Char)} {f : Form} {line : List Char} {s : Statement}

/-- A statement can be read with any types that include its own: that of its cast and, in a
declaration, that of the variable. -/
theorem Reads.of_types (h : Reads f types line s) (hcast : s.cast.type ∈ types')
    (hdeclared : ∀ name t, s.destination = .variable name t → t ∈ types') :
    Reads f types' line s := by
  obtain ⟨hform, ⟨hindent, hdestination, hfits⟩, hwritten⟩ := h
  refine ⟨hform, ⟨hindent, ?_, ?_⟩, hwritten⟩
  · rcases hd : s.destination with ⟨name, t⟩ | _ | name
    · rw [hd] at hdestination
      obtain ⟨hne, hword, -⟩ := hdestination
      exact ⟨hne, hword, hdeclared name t hd⟩
    · trivial
    · rw [hd] at hdestination
      exact hdestination
  · exact ⟨hfits.value_ne_nil, hfits.value_line, hcast, hfits.trailing⟩

theorem Reads.mono (hsub : ∀ t ∈ types, t ∈ types') (h : Reads f types line s) :
    Reads f types' line s := by
  refine h.of_types (hsub _ h.fits.cast.type_mem) fun name t hd => ?_
  have hfits := h.fits.destination
  rw [hd] at hfits
  exact hsub t hfits.2.2

theorem Guardable.mono (hsub : ∀ t ∈ types, t ∈ types') (h : Guardable f types line s) :
    Guardable f types' line s := ⟨h.1.mono hsub, h.2⟩

theorem Guardable.of_own_type (h : Guardable f types line s) :
    Guardable f [s.cast.type] line s := by
  obtain ⟨hreads, hconsistent⟩ := h
  refine ⟨hreads.of_types (by simp) fun name t hd => ?_, hconsistent⟩
  have htype : t = s.cast.type := by simpa [Statement.consistent, hd] using hconsistent
  simp [htype]

end Types

/-! ## Single lines -/

section Lines

variable {g : Guard} {types : List String} (hg : g.Usable types) {f : Form} {t : String}
include hg

theorem Guard.Usable.single (ht : t ∈ types) : g.Usable [t] := by
  refine ⟨by simp, ?_, hg.holder, hg.null⟩
  intro u hu
  rw [List.mem_singleton.mp hu]
  exact hg.types t ht

/-- What the rule for one type guards, the rule for all types guards as well. -/
theorem Guard.Usable.guardable_of_single (ht : t ∈ types) {line : List Char} {s : Statement}
    (h : Guardable f (Rule.mk f g [t]).typeTexts line s) :
    Guardable f (types.map String.toList) line s ∧ s.cast.type = t.toList := by
  rw [(hg.single ht).typeTexts] at h
  have htype : s.cast.type = t.toList := by simpa using h.1.fits.cast.type_mem
  refine ⟨h.mono ?_, htype⟩
  intro u hu
  rw [List.mem_singleton.mp hu]
  exact List.mem_map_of_mem ht

/-- The rule for one type leaves alone what the rule for all types leaves alone. -/
theorem single_of_not_guardable (ht : t ∈ types) {line : List Char} (hline : '\n' ∉ line)
    (h : ∀ s, ¬ Guardable f (types.map String.toList) line s) :
    (Rule.mk f g [t]).text line = line ∧ (Rule.mk f g [t]).fixes line = 0 :=
  Rule.on_not_guardable hline fun s hs =>
    h s (hg.guardable_of_single ht hs).1

theorem single_of_other_type (ht : t ∈ types) {line : List Char} {s : Statement}
    (h : Guardable f (types.map String.toList) line s) (hne : s.cast.type ≠ t.toList) :
    (Rule.mk f g [t]).text line = line ∧ (Rule.mk f g [t]).fixes line = 0 := by
  have hline : '\n' ∉ line := h.1.written ▸ h.1.fits.written_line hg.identifiers
  refine Rule.on_not_guardable hline fun u hu => ?_
  obtain ⟨hall, htype⟩ := hg.guardable_of_single ht hu
  rw [hall.1.unique hg.identifiers h.1] at htype
  exact hne htype

theorem single_of_own_type (ht : t ∈ types) {line : List Char} {s : Statement}
    (h : Guardable f (types.map String.toList) line s) (htype : s.cast.type = t.toList) :
    (Rule.mk f g [t]).text line = s.guarded g ∧ (Rule.mk f g [t]).fixes line = 1 := by
  refine Rule.on_guardable ((hg.single ht).known f) ?_
  have hown := h.of_own_type
  rw [htype] at hown
  rwa [(hg.single ht).typeTexts]

variable (hfresh : g.holder.toList ∉ types.map String.toList) (hnull : trim g.null.toList ≠ [])
  (hsettles : g.Settles (types.map String.toList))
include hfresh hnull hsettles

theorem single_of_guarded (ht : t ∈ types) {s : Statement} (hs : s.Fits (types.map String.toList)) :
    (Rule.mk f g [t]).text (s.guarded g) = s.guarded g ∧
      (Rule.mk f g [t]).fixes (s.guarded g) = 0 := by
  refine Rule.on_guarded ((hg.single ht).known f).onLines ?_ ?_
  · refine single_of_not_guardable hg ht (s.heldLine_line hs hg.holder) fun u hu => ?_
    exact not_reads_heldLine hs hg.typeChars hg.holder hfresh hu.1
  · refine single_of_not_guardable hg ht (s.testing_line hg.identifiers hs hg.null) fun u hu => ?_
    exact not_reads_testing hg.identifiers hs hnull hsettles hu.1

/-- The first rule for the type of a statement guards it, and the others have no part in it. -/
theorem typeRules_of_guardable {ts : List String} (hts : ∀ t ∈ ts, t ∈ types) {line : List Char}
    {s : Statement} (h : Guardable f (types.map String.toList) line s)
    (htype : s.cast.type ∈ ts.map String.toList) :
    afterRules (typeRules f g ts) line = s.guarded g ∧
      trailFixes (trail (typeRules f g ts) line) = 1 := by
  induction ts with
  | nil => exact absurd htype List.not_mem_nil
  | cons t ts ih =>
    obtain ⟨ht, hlater⟩ := List.forall_mem_cons.mp hts
    rw [afterRules_typeRules_cons, trailFixes_typeRules_cons]
    by_cases hown : s.cast.type = t.toList
    · obtain ⟨htext, hfixes⟩ := single_of_own_type hg ht h hown
      rw [htext, hfixes]
      have hquiet : ∀ r ∈ typeRules f g ts,
          r.text (s.guarded g) = s.guarded g ∧ r.fixes (s.guarded g) = 0 := by
        intro r hr
        obtain ⟨u, hu, rfl⟩ := List.mem_map.mp hr
        exact single_of_guarded hg hfresh hnull hsettles (hlater u hu) h.1.fits
      obtain ⟨hrestText, hrestFixes⟩ := afterRules_of_quiet hquiet
      exact ⟨hrestText, by rw [hrestFixes]⟩
    · obtain ⟨htext, hfixes⟩ := single_of_other_type hg ht h hown
      rw [htext, hfixes, Nat.zero_add]
      exact ih hlater ((List.mem_cons.mp htype).resolve_left hown)

theorem typeRules_line {ts : List String} (hts : ∀ t, t ∈ ts ↔ t ∈ types) {line : List Char}
    (hline : '\n' ∉ line) :
    afterRules (typeRules f g ts) line = (Rule.mk f g types).text line ∧
      trailFixes (trail (typeRules f g ts) line) = (Rule.mk f g types).fixes line := by
  have hall : ∀ s, Guardable f (Rule.mk f g types).typeTexts line s ↔
      Guardable f (types.map String.toList) line s := fun s => by rw [hg.typeTexts]
  by_cases hguardable : ∃ s, Guardable f (types.map String.toList) line s
  · obtain ⟨s, hs⟩ := hguardable
    have htype : s.cast.type ∈ ts.map String.toList := by
      obtain ⟨t, ht, heq⟩ := List.mem_map.mp hs.1.fits.cast.type_mem
      exact heq ▸ List.mem_map_of_mem ((hts t).mpr ht)
    obtain ⟨htext, hfixes⟩ := Rule.on_guardable (hg.known f) ((hall s).mpr hs)
    rw [htext, hfixes]
    exact typeRules_of_guardable hg hfresh hnull hsettles (fun t ht => (hts t).mp ht) hs htype
  · have hno : ∀ s, ¬ Guardable f (types.map String.toList) line s := not_exists.mp hguardable
    obtain ⟨htext, hfixes⟩ := Rule.on_not_guardable (r := ⟨f, g, types⟩) hline fun s hs =>
      hno s ((hall s).mp hs)
    rw [htext, hfixes]
    refine afterRules_of_quiet fun r hr => ?_
    obtain ⟨t, ht, rfl⟩ := List.mem_map.mp hr
    exact single_of_not_guardable hg ((hts t).mp ht) hline hno

end Lines

/-! ## Texts -/

section Texts

variable {g : Guard} {types : List String} (hg : g.Usable types) (f : Form)
include hg

theorem typeRules_append {ts : List String} (hts : ∀ t ∈ ts, t ∈ types) (front back : List Char) :
    afterRules (typeRules f g ts) (front ++ '\n' :: back) =
        afterRules (typeRules f g ts) front ++ '\n' :: afterRules (typeRules f g ts) back ∧
      trailFixes (trail (typeRules f g ts) (front ++ '\n' :: back)) =
        trailFixes (trail (typeRules f g ts) front) +
          trailFixes (trail (typeRules f g ts) back) := by
  have hrules : typeRules f g ts = downcasts (ts.map fun t => ⟨f, g, [t]⟩) := (List.map_map).symm
  rw [hrules]
  refine downcasts_append ?_ front back
  intro r hr
  obtain ⟨t, ht, rfl⟩ := List.mem_map.mp hr
  exact ((hg.single (hts t ht)).known f).onLines

theorem typeRules_text (hfresh : g.holder.toList ∉ types.map String.toList)
    (hnull : trim g.null.toList ≠ []) (hsettles : g.Settles (types.map String.toList))
    {ts : List String} (hts : ∀ t, t ∈ ts ↔ t ∈ types) (cs : List Char) :
    afterRules (typeRules f g ts) cs = (Rule.mk f g types).text cs ∧
      trailFixes (trail (typeRules f g ts) cs) = (Rule.mk f g types).fixes cs := by
  induction cs using parts_induction '\n' with
  | last line hline => exact typeRules_line hg hfresh hnull hsettles hts hline
  | more line rest hline ih =>
    obtain ⟨hlineText, hlineFixes⟩ := typeRules_line hg (f := f) hfresh hnull hsettles hts hline
    obtain ⟨hrestText, hrestFixes⟩ := ih
    obtain ⟨htext, hfixes⟩ := typeRules_append hg f (fun t ht => (hts t).mp ht) line rest
    rw [htext, hfixes, Rule.text_append (hg.known f).onLines,
      Rule.fixes_append (hg.known f).onLines, hlineText,
      hlineFixes, hrestText, hrestFixes]
    exact ⟨rfl, rfl⟩

end Texts

/-- Whatever the order and the repetitions, rules for single types give the text and the number of
fixes that the rule for all known types gives, provided that there is a known type, and that the
null literal does not itself end in a cast to one. -/
theorem type_by_type {s : Style} (hs : s.Sound) (hne : s.types ≠ []) (hnull : '\n' ∉ s.null.toList)
    (hcast : ∀ t ∈ s.types,
      ¬ " as ".toList ++ t.toList <:+ (' ' :: s.null.toList).rdropWhile isTrailing)
    (f : Form) {ts : List String} (hts : ∀ t, t ∈ ts ↔ t ∈ s.types) (cs : List Char) :
    afterRules (typeRules f s.guard ts) cs = (Rule.mk f s.guard s.types).text cs ∧
      trailFixes (trail (typeRules f s.guard ts) cs) = (Rule.mk f s.guard s.types).fixes cs := by
  have hg := usable_of_sound hs hnull hne
  obtain ⟨-, -, htrim, -, -⟩ := s.sound_iff.mp hs
  have hsettles : s.guard.Settles (s.types.map String.toList) := by
    rw [Guard.settles_iff hg.identifiers, List.forall_mem_map]
    exact hcast
  exact typeRules_text hg f (holder_notMem_types hs) htrim hsettles hts cs

/-- Types of which one starts another, taken backwards and twice, and a value that ends in a cast.
-/
theorem type_by_type_nested :
    (Style.mk "DictUtils" "Resource" "null" ["Item", "ItemData"]).Sound ∧
    afterRules (typeRules .returning ⟨"Resource", "null"⟩ ["ItemData", "Item", "ItemData"])
        "return x as ItemData as Item\nreturn y as ItemData".toList =
      ("var _return_res: Resource = x as ItemData\n" ++
        "return _return_res if _return_res is Item else null\n" ++
        "var _return_res: Resource = y\n" ++
        "return _return_res if _return_res is ItemData else null").toList ∧
    trailFixes (trail (typeRules .returning ⟨"Resource", "null"⟩ ["ItemData", "Item", "ItemData"])
        "return x as ItemData as Item\nreturn y as ItemData".toList) = 2 := by
  have hsound :
    (Style.mk "DictUtils" "Resource" "null" ["Item", "ItemData"]).Sound := by decide +kernel
  have hts : ∀ t, t ∈ ["ItemData", "Item", "ItemData"] ↔ t ∈ ["Item", "ItemData"] := by simp
  obtain ⟨htext, hfixes⟩ :=
    type_by_type hsound (by decide) (by decide) (by decide +kernel) .returning
    hts "return x as ItemData as Item\nreturn y as ItemData".toList
  exact ⟨hsound, htext.trans (by decide +kernel), hfixes.trans (by decide +kernel)⟩

/-- With no known type the two differ: no rule leaves the line alone, while the rule for no type
guards it, with nothing for a type. -/
theorem no_type_is_the_empty_type :
    (Style.mk "DictUtils" "Resource" "null" []).Sound ∧ '\n' ∉ "null".toList ∧
    afterRules (typeRules .returning ⟨"Resource", "null"⟩ []) "return x as ".toList =
      "return x as ".toList ∧
    trailFixes (trail (typeRules .returning ⟨"Resource", "null"⟩ []) "return x as ".toList) = 0 ∧
    (Rule.mk .returning ⟨"Resource", "null"⟩ []).text "return x as ".toList =
      "var _return_res: Resource = x\nreturn _return_res if _return_res is  else null".toList ∧
    (Rule.mk .returning ⟨"Resource", "null"⟩ []).fixes "return x as ".toList = 1 := by
  decide +kernel

end CastGuard.Downcast
