/-
# `CastGuard.Proofs.Lookup.Literals` — calls that end inside a string literal

A place of a text is outside every string literal if an even number of quotes precede it.  A call
that starts outside a literal should end outside one, or its accessor is given the front half of a
literal for a default and the other half is left behind it.

Calls are read without regard to literals.  The key and a quoted default have both their quotes, but
a default of the other kind is any text without parentheses, and its end is the first `))` there is.
If a literal holds one, the call ends in the middle of the literal (`literal_cut_in_two`).

That is the only way.  A call ends outside exactly if the default that it passes on is complete, and
if it does not, the last quote of its default opens a literal that holds `))` (`ends_outside_iff`).
-/
import CastGuard.Proofs.Lookup.Rematch
import Mathlib.Algebra.Group.Nat.Even

namespace CastGuard.Lookup

open CastGuard.Text

/-! ## String literals -/

/-- The place behind a text is outside every string literal. -/
def Outside (cs : List Char) : Prop := Even (cs.count '"')

instance (cs : List Char) : Decidable (Outside cs) := inferInstanceAs (Decidable (Even _))

/-- Every second member of a list, from the second on. -/
def everySecond {α : Type} : List α → List α
  | _ :: b :: as => b :: everySecond as
  | _ => []

/-- The string literals of a text, without their quotes.  One that is not closed runs to the end. -/
def literals (cs : List Char) : List (List Char) := everySecond (parts '"' cs)

theorem outside_append {front back : List Char} :
    Outside (front ++ back) ↔ (Outside front ↔ Outside back) := by
  unfold Outside
  rw [List.count_append]
  exact Nat.even_add

theorem outside_of_notMem {cs : List Char} (h : '"' ∉ cs) : Outside cs := by
  unfold Outside
  rw [List.count_eq_zero.mpr h]
  exact Even.zero

theorem outside_quotation {inner : List Char} (h : '"' ∉ inner) : Outside (quotation inner) := by
  have hcount : (quotation inner).count '"' = 2 := by
    simp [quotation, List.count_eq_zero.mpr h]
  unfold Outside
  rw [hcount]
  decide

theorem mem_everySecond {α : Type} (b : α) (bs : List α) :
    ∀ {as : List α}, ¬ Even as.length → b ∈ everySecond (as ++ b :: bs)
  | [], h => absurd Even.zero h
  | [_], _ => List.mem_cons_self
  | _ :: _ :: as, h => by
    rw [List.length_cons, List.length_cons, Nat.even_add_one, Nat.even_add_one, not_not] at h
    exact List.mem_cons_of_mem _ (mem_everySecond b bs h)

theorem length_parts (sep : Char) (cs : List Char) :
    (parts sep cs).length = cs.count sep + 1 := by
  induction cs using parts_induction sep with
  | last part hpart =>
    rw [parts_of_notMem hpart, List.count_eq_zero.mpr hpart, List.length_singleton]
  | more part rest hpart ih =>
    rw [parts_append_cons hpart, List.length_cons, ih, List.count_append, List.count_cons_self,
      List.count_eq_zero.mpr hpart, Nat.zero_add]

theorem exists_parts_cons {sep : Char} {front : List Char} (h : sep ∉ front) (rest : List Char) :
    ∃ more ps, parts sep (front ++ rest) = (front ++ more) :: ps := by
  induction front with
  | nil => exact List.exists_cons_of_ne_nil (parts_ne_nil sep rest)
  | cons c front ih =>
    obtain ⟨hc, hfront⟩ : sep ≠ c ∧ sep ∉ front := by simpa using h
    obtain ⟨more, ps, hparts⟩ := ih hfront
    exact ⟨more, ps, by simp [parts, hc.symm, hparts]⟩

/-- A quote outside of literals opens one, which goes on up to the next quote at least. -/
theorem exists_literal {front inner : List Char} (hfront : Outside front) (hinner : '"' ∉ inner)
    (rest : List Char) : ∃ lit ∈ literals (front ++ '"' :: (inner ++ rest)), inner <+: lit := by
  obtain ⟨more, ps, hparts⟩ := exists_parts_cons hinner rest
  refine ⟨inner ++ more, ?_, List.prefix_append _ _⟩
  have hodd : ¬ Even (parts '"' front).length := by
    rw [length_parts, Nat.even_add_one, not_not]
    exact hfront
  rw [literals, parts_append, hparts]
  exact mem_everySecond _ ps hodd

/-! ## Quotes of a call -/

section Quotes

variable {c : Call} (hc : c.Fits) (k : Kind)
include hc

theorem Call.Fits.outside_opening : Outside (opening k c.container c.key) := by
  have hhead := outside_of_notMem (quote_notMem_callHead k hc.dotted)
  have heq : opening k c.container c.key = callHead k c.container ++ quotation c.key := by
    simp [opening, callHead, quotation]
  rw [heq, outside_append]
  exact iff_of_true hhead (outside_quotation hc.key_unquoted)

theorem Call.Fits.outside_argument :
    Outside (writtenArgument c.argument) ↔ Outside (c.default k) := by
  have hfallback : Outside k.fallback.toList := by cases k <;> decide
  cases ha : c.argument with
  | none =>
    rw [Call.default, ha]
    exact iff_of_true (outside_of_notMem List.not_mem_nil) hfallback
  | some a =>
    obtain ⟨hblank, -⟩ := hc.argument a ha
    have hblanks : '"' ∉ ',' :: a.blanks := by
      intro hmem
      rcases List.mem_cons.mp hmem with heq | hmem
      · exact absurd heq (by decide)
      · exact absurd (hblank _ hmem) (by decide)
    have hwritten : Outside (writtenArgument (some a)) ↔ Outside a.value := by
      change Outside ((',' :: a.blanks) ++ a.value) ↔ _
      rw [outside_append, iff_true_left (outside_of_notMem hblanks)]
    rw [hwritten]
    by_cases hempty : a.value = []
    · have hdefault : c.default k = k.fallback.toList := by simp [Call.default, ha, hempty]
      rw [hempty, hdefault]
      exact iff_of_true (outside_of_notMem List.not_mem_nil) hfallback
    · have hdefault : c.default k = a.value := by simp [Call.default, ha, hempty]
      rw [hdefault]

theorem Call.Fits.outside_written : Outside (c.written k) ↔ Outside (c.default k) := by
  have hclose : Outside [')', ')'] := outside_of_notMem (by decide)
  rw [Call.written_eq, outside_append, iff_true_left (hc.outside_opening k), outside_append,
    iff_true_right hclose, hc.outside_argument k]

/-- A call that does not end outside has a plain default, and its last quote has none behind it up
to the end of the call. -/
theorem Call.Fits.exists_last_quote (h : ¬ Outside (c.written k)) :
    ∃ before behind, Outside before ∧ '"' ∉ behind ∧
      c.written k = before ++ '"' :: (behind ++ [')', ')']) := by
  have hargument : ¬ Outside (writtenArgument c.argument) := by
    rw [hc.outside_argument k, ← hc.outside_written k]
    exact h
  have hquote : '"' ∈ writtenArgument c.argument := by
    by_contra hno
    exact hargument (outside_of_notMem hno)
  obtain ⟨core, d, behind, hsplit, hd, hbehind⟩ :=
    exists_last_not (p := (· != '"')) hquote (by decide)
  obtain rfl : d = '"' := by simpa using hd
  have hno : '"' ∉ behind := fun hmem => absurd (hbehind _ hmem) (by decide)
  have hcore : Outside core := by
    by_contra hcore
    refine hargument ?_
    rw [hsplit, outside_append]
    refine iff_of_false hcore ?_
    unfold Outside
    rw [List.count_cons_self, List.count_eq_zero.mpr hno]
    decide
  refine ⟨opening k c.container c.key ++ core, behind, ?_, hno, ?_⟩
  · rw [outside_append]
    exact iff_of_true (hc.outside_opening k) hcore
  · rw [Call.written_eq, hsplit]
    simp

end Quotes

/-- A call that starts outside of string literals ends outside of them exactly if the default that
it passes on is complete.  Where it does not, a string literal of the text holds two closing
parentheses. -/
theorem ends_outside_iff (lib : String) (k : Kind) {cs : List Char} {front back : List (Piece Call)}
    {c : Call} (hps : (Rule.ofKind lib k).pieces cs = front ++ .found c :: back)
    (hstart : Outside (render (Call.written k) front)) :
    (Outside (render (Call.written k) front ++ c.written k) ↔ Outside (c.default k)) ∧
    (Outside (render (Call.written k) front ++ c.written k) ∨
      ∃ lit ∈ literals cs, "))".toList <:+: lit) := by
  have hdecomposes := decomposes_pieces lib k cs
  have hc : c.Fits := hdecomposes.fits c (by rw [hps]; simp)
  have hends : Outside (render (Call.written k) front ++ c.written k) ↔ Outside (c.written k) := by
    rw [outside_append, iff_true_left hstart]
  rw [hends]
  refine ⟨hc.outside_written k, or_iff_not_imp_left.mpr fun hcut => ?_⟩
  obtain ⟨before, behind, hbefore, hbehind, hwritten⟩ := hc.exists_last_quote k hcut
  have hcs : cs = (render (Call.written k) front ++ before) ++
      '"' :: ((behind ++ [')', ')']) ++ render (Call.written k) back) := by
    rw [← hdecomposes.spelled, hps, render_append, render_found, hwritten]
    simp
  have hopens : Outside (render (Call.written k) front ++ before) := by
    rw [outside_append]
    exact iff_of_true hstart hbefore
  have hinner : '"' ∉ behind ++ [')', ')'] := by simp [hbehind]
  obtain ⟨lit, hlit, hprefix⟩ := exists_literal hopens hinner (render (Call.written k) back)
  rw [← hcs] at hlit
  exact ⟨lit, hlit, (List.suffix_append behind _).isInfix.trans hprefix.isInfix⟩

/-- A literal with a parenthesis in front of the call, and two quotes in a plain default. -/
theorem ends_outside_iff_joined :
    Outside "x = \"(\" + ".toList ∧
    (Rule.ofKind "DictUtils" .string).pieces "x = \"(\" + str(d.get(\"k\", \"a\" + b))".toList =
      "x = \"(\" + ".toList.map .kept ++
        [.found ⟨"d".toList, "k".toList, some ⟨" ".toList, "\"a\" + b".toList⟩⟩] ∧
    Outside "x = \"(\" + str(d.get(\"k\", \"a\" + b))".toList := by
  have hps : (Rule.ofKind "DictUtils" .string).pieces
      "x = \"(\" + str(d.get(\"k\", \"a\" + b))".toList =
        "x = \"(\" + ".toList.map .kept ++
          [.found ⟨"d".toList, "k".toList, some ⟨" ".toList, "\"a\" + b".toList⟩⟩] := by
    decide +kernel
  have hstart : Outside "x = \"(\" + ".toList := by decide +kernel
  have hfront : render (Call.written .string) ("x = \"(\" + ".toList.map .kept) =
      "x = \"(\" + ".toList := render_map_kept _
  obtain ⟨-, hends⟩ := ends_outside_iff "DictUtils" .string hps (by rwa [hfront])
  rw [hfront] at hends
  exact ⟨hstart, hps, hends.resolve_right (by decide +kernel)⟩

/-- A smiling default: the call ends inside the literal, and so does the default of the accessor. -/
theorem literal_cut_in_two :
    (Rule.ofKind "DictUtils" .string).pieces "str(d.get(\"mood\", \":))\" + tail))".toList =
      .found ⟨"d".toList, "mood".toList, some ⟨" ".toList, "\":".toList⟩⟩ ::
        "\" + tail))".toList.map .kept ∧
    Outside [] ∧
    ¬ Outside (Call.written .string
      ⟨"d".toList, "mood".toList, some ⟨" ".toList, "\":".toList⟩⟩) ∧
    (Rule.ofKind "DictUtils" .string).text "str(d.get(\"mood\", \":))\" + tail))".toList =
      "DictUtils.get_string(d, \"mood\", \":)\" + tail))".toList := by
  decide +kernel

end CastGuard.Lookup
