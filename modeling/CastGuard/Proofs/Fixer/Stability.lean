/-
# `CastGuard.Proofs.Fixer.Stability` — when a fixed text is fixed for good

Fixing a text is meant to leave nothing to fix.  It does not always: a key or a default is copied as
it is, and one that ends in `.get(` or `.get("` can be read, in front of the quote that follows it,
as the head of a further call.

The rules for casts are not to blame.  Their pass settles what it sees
(`CastGuard.Proofs.Downcast.Settled`) and neither makes nor breaks calls
(`CastGuard.Proofs.Downcast.Calls`).  So a fixed text is fixed for good exactly if the rules for
look-ups left no call behind, and that is so whenever none of the copied keys and defaults has one
of the two endings (`CastGuard.Proofs.Lookup.Rematch`).
-/
import CastGuard.Proofs.Downcast.Calls
import CastGuard.Proofs.Downcast.Settled
import CastGuard.Proofs.Lookup.Rematch

namespace CastGuard

open CastGuard.Text CastGuard.Lookup CastGuard.Downcast

/-! ## Sequences of rules -/

theorem afterRules_append (rs rs' : List Rule) (cs : List Char) :
    afterRules (rs ++ rs') cs = afterRules rs' (afterRules rs cs) := List.foldl_append

theorem trail_append (rs rs' : List Rule) (cs : List Char) :
    trail (rs ++ rs') cs = trail rs cs ++ trail rs' (afterRules rs cs) := by
  induction rs generalizing cs with
  | nil => rfl
  | cons r rs ih =>
    rw [List.cons_append, trail, ih]
    rfl

theorem trailFixes_append (steps steps' : List Step) :
    trailFixes (steps ++ steps') = trailFixes steps + trailFixes steps' := sumOf_append ..

/-! ## The rules for look-ups -/

def lookupsOf (lib : String) (ks : List Lookup.Kind) : List Rule :=
  ks.map fun k => .lookup (Rule.ofKind lib k)

theorem lookupRules_eq (s : Style) : s.lookupRules = lookupsOf s.lib Lookup.Kind.all := by
  rw [Style.lookupRules, Lookup.rules, List.map_map]
  rfl

theorem mem_kinds (k : Lookup.Kind) : k ∈ Lookup.Kind.all := by cases k <;> decide

/-- The rules make no fix exactly if the text holds no call of their kinds, and then keep it. -/
theorem lookups_quiet_iff {lib : String} {ks : List Lookup.Kind} {cs : List Char} :
    trailFixes (trail (lookupsOf lib ks) cs) = 0 ↔ ∀ k ∈ ks, ¬ HasCall k cs := by
  induction ks generalizing cs with
  | nil => simp [lookupsOf, trail, trailFixes]
  | cons k ks ih =>
    have hsum : trailFixes (trail (lookupsOf lib (k :: ks)) cs) = (Rule.ofKind lib k).fixes cs +
        trailFixes (trail (lookupsOf lib ks) ((Rule.ofKind lib k).text cs)) :=
      trailFixes_trail_cons ..
    rw [hsum, Nat.add_eq_zero_iff, ih, fixes_eq_zero_iff, List.forall_mem_cons]
    refine and_congr_right fun hno => ?_
    rw [text_of_not_hasCall hno]

theorem afterRules_of_no_calls {lib : String} {ks : List Lookup.Kind} {cs : List Char}
    (h : ∀ k ∈ ks, ¬ HasCall k cs) : afterRules (lookupsOf lib ks) cs = cs := by
  refine (afterRules_of_quiet fun r hr => ?_).1
  obtain ⟨k, hk, rfl⟩ := List.mem_map.mp hr
  exact ⟨text_of_not_hasCall (h k hk), fixes_eq_zero_iff.mpr (h k hk)⟩

/-- The calls that the rules for some kinds replace in turn, with their kinds. -/
def replaced (lib : String) : List Lookup.Kind → List Char → List (Lookup.Kind × Call)
  | [], _ => []
  | k :: ks, cs => (finds ((Rule.ofKind lib k).pieces cs)).map (k, ·) ++
      replaced lib ks ((Rule.ofKind lib k).text cs)

/-- No key is copied that ends in `.get(`, and no default that ends in `.get("`. -/
def CopiesTamely (lib : String) (ks : List Lookup.Kind) (cs : List Char) : Prop :=
  ∀ kc ∈ replaced lib ks cs,
    ¬ ".get(".toList <:+ kc.2.key ∧ ¬ ".get(\"".toList <:+ kc.2.default kc.1

/-- Rules that copy tamely leave no call of their own kinds and make none of any other. -/
theorem not_hasCall_lookups {lib : String} (hlib : isDottedIdentifier lib.toList = true)
    {ks : List Lookup.Kind} {cs : List Char} (h : CopiesTamely lib ks cs) {i : Lookup.Kind}
    (hi : i ∈ ks ∨ ¬ HasCall i cs) : ¬ HasCall i (afterRules (lookupsOf lib ks) cs) := by
  induction ks generalizing cs with
  | nil => exact hi.resolve_left List.not_mem_nil
  | cons k ks ih =>
    have htame : Tame k (finds ((Rule.ofKind lib k).pieces cs)) := by
      intro c hc
      exact h (k, c) (List.mem_append_left _ (List.mem_map_of_mem hc))
    have hrest : CopiesTamely lib ks ((Rule.ofKind lib k).text cs) := by
      intro kc hkc
      exact h kc (List.mem_append_right _ hkc)
    refine ih hrest ?_
    rcases hi with hi | hno
    · rcases List.mem_cons.mp hi with rfl | hi
      · exact .inr (not_hasCall_text hlib htame)
      · exact .inl hi
    · exact .inr fun hcall => hno (hasCall_of_hasCall_text hlib htame hcall)

/-! ## All rules -/

/-- What keeps the rules for casts from meddling with calls and with their own work. -/
structure Style.Calm (s : Style) : Prop where
  sound : s.Sound
  types : s.types ≠ []
  null_line : '\n' ∉ s.null.toList
  null_unframed : Unframed s.null.toList
  null_settles : s.guard.Settles (s.types.map String.toList)

section Calm

variable {s : Style} (hs : s.Calm)
include hs

theorem Style.Calm.usable : s.guard.Usable s.types :=
  usable_of_sound hs.sound hs.null_line hs.types

theorem Style.Calm.quiet (cs : List Char) :
    Quiet s.guard s.types (afterRules s.downcastRules cs) := by
  obtain ⟨-, -, hnull, -, -⟩ := s.sound_iff.mp hs.sound
  rw [afterRules_downcastRules hs.types]
  exact quiet_passText hs.usable (holder_notMem_types hs.sound) hnull hs.null_settles cs

theorem Style.Calm.hasCall_downcast {k : Lookup.Kind} {cs : List Char} :
    HasCall k (afterRules s.downcastRules cs) ↔ HasCall k cs := by
  rw [afterRules_downcastRules hs.types]
  exact hasCall_passText hs.usable hs.null_unframed

theorem unchanged_iff {cs : List Char} (h : Quiet s.guard s.types cs) :
    trailFixes (trail s.rules cs) = 0 ∧ afterRules s.rules cs = cs ↔ ∀ k, ¬ HasCall k cs := by
  have hall : (∀ k, ¬ HasCall k cs) ↔ ∀ k ∈ Lookup.Kind.all, ¬ HasCall k cs :=
    ⟨fun hno k _ => hno k, fun hno k => hno k (mem_kinds k)⟩
  rw [hall, Style.rules, trail_append, trailFixes_append, afterRules_append, Nat.add_eq_zero_iff,
    lookupRules_eq, lookups_quiet_iff]
  constructor
  · rintro ⟨⟨hno, -⟩, -⟩
    exact hno
  · intro hno
    rw [afterRules_of_no_calls hno]
    obtain ⟨hfixes, htext⟩ := (quiet_iff hs.types).mp h
    exact ⟨⟨hno, hfixes⟩, htext⟩

/-- The rules change nothing in their own output exactly if the look-up rules left no call. -/
theorem stable_iff (cs : List Char) :
    trailFixes (trail s.rules (afterRules s.rules cs)) = 0 ∧
        afterRules s.rules (afterRules s.rules cs) = afterRules s.rules cs ↔
      ∀ k, ¬ HasCall k (afterRules s.lookupRules cs) := by
  have hout : afterRules s.rules cs = afterRules s.downcastRules (afterRules s.lookupRules cs) :=
    afterRules_append ..
  have hquiet : Quiet s.guard s.types (afterRules s.rules cs) := by
    rw [hout]
    exact hs.quiet _
  rw [unchanged_iff hs hquiet, hout]
  simp only [hs.hasCall_downcast]

theorem stable_of_copiesTamely {cs : List Char} (h : CopiesTamely s.lib Lookup.Kind.all cs) :
    trailFixes (trail s.rules (afterRules s.rules cs)) = 0 ∧
      afterRules s.rules (afterRules s.rules cs) = afterRules s.rules cs := by
  obtain ⟨hlib, -⟩ := s.sound_iff.mp hs.sound
  rw [stable_iff hs, lookupRules_eq]
  exact fun k => not_hasCall_lookups hlib h (.inl (mem_kinds k))

end Calm

/-! ## The standard style -/

def standardFixer : Fixer := ⟨Style.standard.rules⟩

theorem standard_calm : Style.standard.Calm where
  sound := Style.standard_sound
  types := by decide
  null_line := by decide
  null_unframed := by decide
  null_settles := by
    intro t ht v w _ heq
    -- the literal has one blank in front of it, and a cast has two
    have hcount := congrArg (List.count ' ') heq
    have hnull : List.count ' ' (' ' :: Style.standard.guard.null.toList) = 1 := by decide
    have has : List.count ' ' " as ".toList = 2 := by decide
    rw [hnull, List.count_append, List.count_append, has] at hcount
    omega

theorem fix_toList (f : Fixer) (text : String) :
    (f.fix text).text.toList = afterRules f.rules text.toList := by
  rw [Fixer.fix_text, String.toList_ofList]

theorem refix_iff (f : Fixer) (text : String) :
    (f.fix (f.fix text).text).fixes = 0 ∧ (f.fix (f.fix text).text).text = (f.fix text).text ↔
      trailFixes (trail f.rules (afterRules f.rules text.toList)) = 0 ∧
        afterRules f.rules (afterRules f.rules text.toList) = afterRules f.rules text.toList := by
  rw [← String.toList_inj, fix_toList, fix_toList]
  have hfixes : (f.fix (f.fix text).text).fixes =
      trailFixes (trail f.rules (f.fix text).text.toList) := rfl
  rw [hfixes, fix_toList]

/-- A text is fixed for good exactly if the rules for look-ups leave no call of any kind, and that
is so whenever none of the keys that they copy ends in `.get(` and none of the defaults in
`.get("`. -/
theorem fixed_for_good_iff (text : String) :
    Fixer.ofStyle Style.standard = .ok standardFixer ∧
    ((standardFixer.fix (standardFixer.fix text).text).fixes = 0 ∧
        (standardFixer.fix (standardFixer.fix text).text).text = (standardFixer.fix text).text ↔
      ∀ k, ¬ HasCall k (afterRules Style.standard.lookupRules text.toList)) ∧
    (CopiesTamely Style.standard.lib Lookup.Kind.all text.toList →
      (standardFixer.fix (standardFixer.fix text).text).fixes = 0 ∧
        (standardFixer.fix (standardFixer.fix text).text).text =
          (standardFixer.fix text).text) := by
  refine ⟨Fixer.ofStyle_eq_ok_iff.mpr ⟨Style.standard_sound, rfl⟩, ?_, ?_⟩
  · rw [refix_iff]
    exact stable_iff standard_calm text.toList
  · rw [refix_iff]
    exact stable_of_copiesTamely standard_calm

/-- A default with a parenthesis inside its quotes is copied tamely. -/
example : CopiesTamely Style.standard.lib Lookup.Kind.all
    "str(d.get(\"name\", \"a(b)\")) + int(a.get(\"n\"))".toList := by
  unfold CopiesTamely
  decide +kernel

/-- A key that ends in `.get(`: what is copied opens a call that was not there. -/
theorem fixed_again :
    (standardFixer.fix "int(a.get(\"int(b.get(\"))x\"))").text =
      "DictUtils.get_int(a, \"int(b.get(\", 0)x\"))" ∧
    (standardFixer.fix (standardFixer.fix "int(a.get(\"int(b.get(\"))x\"))").text).fixes = 1 ∧
    (standardFixer.fix (standardFixer.fix "int(a.get(\"int(b.get(\"))x\"))").text).text =
      "DictUtils.get_int(a, \"DictUtils.get_int(b, \", 0)x\", 0)" := by
  decide +kernel

end CastGuard
