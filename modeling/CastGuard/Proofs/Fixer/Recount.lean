/-
# `CastGuard.Proofs.Fixer.Recount` — fixes recounted in the texts

How many fixes the rules made can be told from the texts before and after, without running the rules
again.  Every look-up has two pairs of parentheses and every accessor one, so the rules for look-ups
take one opening and one closing parenthesis out of a text with each fix.  Every guarded cast has
two lines in place of one, so the rules for casts put one line end in.  Everything else is copied,
with its own parentheses, quotes and line ends: keys and defaults may hold any number of them.

Quotes stay as many as they are, but for the two of the empty literal that the accessor of strings
is given when a look-up has no default.

Main statement: `fixes_recounted`.
-/
import CastGuard.Proofs.Fixer.Stability
import Mathlib.Algebra.Order.Ring.Int
import Mathlib.Tactic.Ring

namespace CastGuard

open CastGuard.Text

/-! ## Characters in rendered pieces -/

/-- If every find of a certain sort gains `n` times the character, and no other find gains or loses
any, then a text gains `n` times as many as it has finds of that sort. -/
theorem count_render {α : Type} {spell spell' : α → List Char} {ch : Char}
    (sort : α → Bool) {n : Int}
    {ps : List (Piece α)}
    (h : ∀ a ∈ finds ps, ((spell' a).count ch : Int) =
      (spell a).count ch + if sort a then n else 0) :
    ((render spell' ps).count ch : Int) = (render spell ps).count ch +
      n * (finds ps).countP sort := by
  induction ps with
  | nil => simp
  | cons p ps ih =>
    cases p with
    | kept c =>
      have hlater := ih h
      simp only [render_kept, List.count_cons, finds_kept, Nat.cast_add]
      omega
    | found a =>
      rw [finds_found, List.forall_mem_cons] at h
      have hlater := ih h.2
      have hfind := h.1
      simp only [render_found, List.count_append, finds_found, List.countP_cons,
        Nat.cast_add, mul_add]
      cases hsort : sort a with
      | true =>
        simp only [hsort, if_true] at hfind
        simp only [if_true, Nat.cast_one, mul_one]
        omega
      | false =>
        simp only [hsort, Bool.false_eq_true, if_false] at hfind
        simp only [Bool.false_eq_true, if_false, Nat.cast_zero, mul_zero]
        omega

/-! ## Look-ups -/

namespace Lookup

/-- The accessor is given the fallback of the kind: the call has no default, or an empty one. -/
def Call.fallsBack (c : Call) : Bool :=
  match c.argument with
  | none => true
  | some a => a.value.isEmpty

/-- The characters whose number tells the fixes of look-ups, and those that enclose literals. -/
def isFence (ch : Char) : Bool := ch == '(' || ch == ')' || ch == '"'

section Fence

variable {ch : Char} (hch : isFence ch = true)
include hch

theorem isFence_cases : ch = '(' ∨ ch = ')' ∨ ch = '"' := by
  simpa [isFence, or_assoc] using hch

theorem isFence_punctuation : ch ∈ punctuation := by
  rcases isFence_cases hch with rfl | rfl | rfl <;> decide

theorem isFence_notMem_blanks {blanks : List Char} (h : ∀ d ∈ blanks, isBlank d = true) :
    ch ∉ blanks := by
  intro hmem
  rcases isFence_cases hch with rfl | rfl | rfl <;> exact absurd (h _ hmem) (by decide)

theorem isFence_notMem_dotted {name : List Char} (h : Dotted name) : ch ∉ name := by
  intro hmem
  rcases isFence_cases hch with rfl | rfl | rfl <;> exact absurd (h.isDottedChar _ hmem) (by decide)

theorem count_default (k : Kind) {c : Call} (hc : c.Fits) :
    (c.default k).count ch =
      (writtenArgument c.argument).count ch +
        if c.fallsBack then k.fallback.toList.count ch else 0 := by
  have hcomma : (',' == ch) = false := by
    rcases isFence_cases hch with rfl | rfl | rfl <;> rfl
  cases harg : c.argument with
  | none => simp [Call.default, Call.fallsBack, writtenArgument, harg]
  | some a =>
    have hblanks : a.blanks.count ch = 0 :=
      List.count_eq_zero.mpr (isFence_notMem_blanks hch (hc.argument a harg).1)
    by_cases hempty : a.value = []
    · simp [Call.default, Call.fallsBack, writtenArgument, Argument.written, harg, hempty, hblanks,
        List.count_cons, hcomma]
    · simp [Call.default, Call.fallsBack, writtenArgument, Argument.written, harg, hempty, hblanks,
        List.count_cons, hcomma]

/-- Replacing a call takes one parenthesis of each sort and keeps the quotes, but for a fallback's.
-/
theorem count_typed {lib : String} (hlib : isDottedIdentifier lib.toList = true) (k : Kind)
    {c : Call} (hc : c.Fits) :
    ((c.typed lib k).count ch : Int) = (c.written k).count ch +
      ((if ch = '"' then 0 else -1) + if c.fallsBack then k.fallback.toList.count ch else 0) := by
  have hlib0 : lib.toList.count ch = 0 :=
    List.count_eq_zero.mpr (notMem_dottedIdentifier hlib (isFence_punctuation hch))
  have hcontainer : c.container.count ch = 0 :=
    List.count_eq_zero.mpr (isFence_notMem_dotted hch hc.dotted)
  have hnames : k.wrapper.toList.count ch = 0 ∧ k.accessor.toList.count ch = 0 := by
    rcases isFence_cases hch with rfl | rfl | rfl <;> cases k <;> decide
  have hframe :
    ((('.' :: '(' :: (", \"".toList ++ ("\", ".toList ++ [')']))).count ch : Nat) : Int) =
      ('(' :: (".get(\"".toList ++ '"' :: "))".toList)).count ch + if ch = '"' then 0 else -1 := by
    rcases isFence_cases hch with rfl | rfl | rfl <;> decide
  have hdefault := count_default hch k hc
  simp only [List.count_append, List.count_cons, List.count_nil] at hframe
  simp only [Call.typed, Call.written, List.count_append, List.count_cons, List.count_nil, hlib0,
    hcontainer, hnames.1, hnames.2, hdefault]
  push_cast at hframe ⊢
  omega

end Fence

end Lookup

open CastGuard.Lookup CastGuard.Downcast

/-- What one replaced call gains of a character, all calls that the rules for look-ups replace gain
together. -/
theorem count_lookups {lib : String} {ch : Char} (sort : Lookup.Kind × Call → Bool) {n : Int}
    (h : ∀ k c, c.Fits →
      ((c.typed lib k).count ch : Int) = (c.written k).count ch + if sort (k, c) then n else 0)
    (ks : List Lookup.Kind) (cs : List Char) :
    ((afterRules (lookupsOf lib ks) cs).count ch : Int) =
      cs.count ch + n * (replaced lib ks cs).countP sort := by
  induction ks generalizing cs with
  | nil => simp [lookupsOf, afterRules, replaced]
  | cons k ks ih =>
    have hdecomposes := decomposes_pieces lib k cs
    have hrule : (((Rule.ofKind lib k).text cs).count ch : Int) =
        cs.count ch + n * (finds ((Rule.ofKind lib k).pieces cs)).countP fun c => sort (k, c) := by
      have hrender := count_render (fun c => sort (k, c)) fun c hc => h k c (hdecomposes.fits c hc)
      rwa [hdecomposes.spelled] at hrender
    have hlater := ih ((Rule.ofKind lib k).text cs)
    have hsplit : (replaced lib (k :: ks) cs).countP sort =
        (finds ((Rule.ofKind lib k).pieces cs)).countP (fun c => sort (k, c)) +
          (replaced lib ks ((Rule.ofKind lib k).text cs)).countP sort := by
      rw [replaced, List.countP_append, List.countP_map]
      rfl
    change ((afterRules (lookupsOf lib ks) ((Rule.ofKind lib k).text cs)).count ch : Int) = _
    rw [hlater, hrule, hsplit]
    push_cast
    ring

theorem length_replaced (lib : String) (ks : List Lookup.Kind) (cs : List Char) :
    (replaced lib ks cs).length = trailFixes (trail (lookupsOf lib ks) cs) := by
  induction ks generalizing cs with
  | nil => rfl
  | cons k ks ih =>
    rw [replaced, List.length_append, List.length_map, ih]
    rfl

/-! ## Casts -/

theorem count_guarded {types : List (List Char)} (htypes : ∀ t ∈ types, isIdentifier t = true)
    {g : Guard} (hholder : isIdentifier g.holder.toList = true) (hnull : '\n' ∉ g.null.toList)
    {s : Statement} (hs : s.Fits types) : (s.guarded g).count '\n' = s.written.count '\n' + 1 := by
  have hheld := List.count_eq_zero.mpr (s.heldLine_line hs hholder (g := g))
  have htesting := List.count_eq_zero.mpr (s.testing_line htypes hs hnull)
  have hwritten := List.count_eq_zero.mpr (hs.written_line htypes)
  rw [s.guarded_eq_lines, List.count_append, List.count_cons_self, hheld, htesting, hwritten]

theorem count_lineEnds {g : Guard} {types : List String} (hg : g.Usable types) (f : Downcast.Form)
    (cs : List Char) : ((Downcast.Rule.mk f g types).text cs).count '\n' =
      cs.count '\n' + (Downcast.Rule.mk f g types).fixes cs := by
  let r : Downcast.Rule := ⟨f, g, types⟩
  have hfind : ∀ s ∈ finds (r.pieces cs), ((r.replace s).count '\n' : Int) =
      s.written.count '\n' + if s.consistent then 1 else 0 := by
    intro s hs
    obtain ⟨-, hfits⟩ := Downcast.Rule.fits_of_mem_finds hs
    unfold Downcast.Rule.replace
    split
    · rw [count_guarded (hg.known f) hg.holder hg.null hfits]
      rfl
    · rw [add_zero]
  have hrender := count_render Statement.consistent hfind
  rw [r.render_pieces, one_mul, ← Nat.cast_add, Nat.cast_inj,
    List.countP_eq_length_filter] at hrender
  exact hrender

theorem count_downcastRules {s : Style} (hs : s.Sound) (hnull : '\n' ∉ s.null.toList)
    (cs : List Char) :
    (afterRules s.downcastRules cs).count '\n' =
      cs.count '\n' + trailFixes (trail s.downcastRules cs) := by
  have hrules : ∀ r ∈ s.downcastRules, ∀ cs,
      (r.text cs).count '\n' = cs.count '\n' + r.fixes cs := by
    intro r hr cs
    by_cases hne : s.types = []
    · rw [(pass_without_types hne cs).1] at hr
      exact absurd hr List.not_mem_nil
    · rw [downcastRules_eq hne] at hr
      obtain ⟨f, -, rfl⟩ := List.mem_map.mp hr
      exact count_lineEnds (usable_of_sound hs hnull hne) f cs
  generalize s.downcastRules = rules at hrules ⊢
  induction rules generalizing cs with
  | nil => rfl
  | cons r rs ih =>
    obtain ⟨hr, hlater⟩ := List.forall_mem_cons.mp hrules
    rw [afterRules_cons, trailFixes_trail_cons, ih _ hlater, hr, Nat.add_assoc]

/-! ## Both passes -/

/-- Each fix of a look-up takes one parenthesis of either sort out of the text, each fix of a cast
puts a line end in, and each look-up of a string that is given the fallback puts two quotes in.  So
the fixes of both passes are the opening parentheses that the first one takes and the line ends that
the second one adds. -/
theorem fixes_recounted {s : Style} (hs : s.Sound) (hnull : '\n' ∉ s.null.toList) (cs : List Char) :
    ((afterRules s.lookupRules cs).count '(' + trailFixes (trail s.lookupRules cs) = cs.count '(' ∧
      (afterRules s.lookupRules cs).count ')' + trailFixes (trail s.lookupRules cs) =
        cs.count ')') ∧
    ((replaced s.lib Lookup.Kind.all cs).length = trailFixes (trail s.lookupRules cs) ∧
      (afterRules s.lookupRules cs).count '"' = cs.count '"' +
        2 * (replaced s.lib Lookup.Kind.all cs).countP fun kc =>
          kc.1 == .string && kc.2.fallsBack) ∧
    (∀ ds, (afterRules s.downcastRules ds).count '\n' =
      ds.count '\n' + trailFixes (trail s.downcastRules ds)) ∧
    trailFixes (trail s.rules cs) =
      (cs.count '(' - (afterRules s.lookupRules cs).count '(') +
        ((afterRules s.rules cs).count '\n' - (afterRules s.lookupRules cs).count '\n') := by
  obtain ⟨hlib, -⟩ := s.sound_iff.mp hs
  have hlength := length_replaced s.lib Lookup.Kind.all cs
  have parentheses : ∀ ch, ch = '(' ∨ ch = ')' →
      (afterRules s.lookupRules cs).count ch + trailFixes (trail s.lookupRules cs) =
        cs.count ch := by
    intro ch hch
    have hcall : ∀ (k : Lookup.Kind) (c : Call), c.Fits → ((c.typed s.lib k).count ch : Int) =
        (c.written k).count ch + if (fun _ => true) (k, c) then -1 else 0 := by
      intro k c hc
      have hfence : isFence ch = true := by rcases hch with rfl | rfl <;> rfl
      have hfallback : k.fallback.toList.count ch = 0 := by
        rcases hch with rfl | rfl <;> cases k <;> rfl
      have hquote : ch ≠ '"' := by rcases hch with rfl | rfl <;> decide
      rw [count_typed hfence hlib k hc, hfallback]
      simp [hquote]
    have hcount := count_lookups (fun _ => true) hcall Lookup.Kind.all cs
    rw [List.countP_true, hlength, ← lookupRules_eq] at hcount
    omega
  have quotes : ((afterRules s.lookupRules cs).count '"' : Int) = cs.count '"' +
      2 * (replaced s.lib Lookup.Kind.all cs).countP fun kc =>
        kc.1 == .string && kc.2.fallsBack := by
    rw [lookupRules_eq]
    refine count_lookups (fun kc => kc.1 == .string && kc.2.fallsBack) (fun k c hc => ?_)
      Lookup.Kind.all cs
    have hfallback : k.fallback.toList.count '"' = if k == .string then 2 else 0 := by
      cases k <;> rfl
    rw [count_typed (by decide) hlib k hc, hfallback]
    cases k == .string <;> cases c.fallsBack <;> simp
  refine ⟨⟨parentheses _ (.inl rfl), parentheses _ (.inr rfl)⟩, ⟨?_, ?_⟩,
    count_downcastRules hs hnull, ?_⟩
  · rw [hlength, ← lookupRules_eq]
  · omega
  · have hfront := parentheses '(' (.inl rfl)
    have hback := count_downcastRules hs hnull (afterRules s.lookupRules cs)
    rw [Style.rules, trail_append, trailFixes_append, afterRules_append]
    omega

/-- A key and a default with parentheses and a line end of their own, a fallback of strings and one
of numbers, and a cast behind a call. -/
def mixedText : List Char :=
  "str(a.get(\"(\")) + ".toList ++ ("str(b.get(\")\", \"((\n\"))\n".toList ++
    "var c: NPCData = int(d.get(\"k\",)) as NPCData".toList)

theorem fixes_recounted_mixed :
    Style.standard.Sound ∧ '\n' ∉ Style.standard.null.toList ∧
    (trail Style.standard.rules mixedText).map Step.fixes = [2, 1, 0, 0, 1, 0, 0] ∧
    (afterRules Style.standard.lookupRules mixedText).count '(' + 3 = mixedText.count '(' ∧
    (afterRules Style.standard.lookupRules mixedText).count ')' + 3 = mixedText.count ')' ∧
    (afterRules Style.standard.lookupRules mixedText).count '"' = mixedText.count '"' + 2 ∧
    (afterRules Style.standard.downcastRules mixedText).count '\n' = mixedText.count '\n' + 1 := by
  have hnull : '\n' ∉ Style.standard.null.toList := by decide
  obtain ⟨⟨hfront, hback⟩, ⟨-, hquotes⟩, hlines, -⟩ :=
    fixes_recounted Style.standard_sound hnull mixedText
  have hlookups : trailFixes (trail Style.standard.lookupRules mixedText) = 3 := by decide +kernel
  have hfallbacks : ((replaced Style.standard.lib Lookup.Kind.all mixedText).countP fun kc =>
      kc.1 == .string && kc.2.fallsBack) = 1 := by decide +kernel
  have hcasts : trailFixes (trail Style.standard.downcastRules mixedText) = 1 := by decide +kernel
  rw [hlookups] at hfront hback
  rw [hfallbacks] at hquotes
  have hends := hlines mixedText
  rw [hcasts] at hends
  exact ⟨Style.standard_sound, hnull, by decide +kernel, hfront, hback, hquotes, hends⟩

end CastGuard
