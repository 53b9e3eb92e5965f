/-
# `CastGuard.Proofs.Lookup.Decomposition` — a rule replaces exactly the calls of its grammar

For every kind, library and text there is one way to cut the text into calls of the kind and kept
characters such that

* each call stands at the start of a word, spelled as the grammar has it, and
* no call of the grammar starts at a kept character,

both in the context of the whole text.  The rule renders this decomposition with every call replaced
by the typed accessor, and counts its calls.  Nothing is said of the reader here: `Stands` is the
grammar and a word boundary.
-/
import CastGuard.Proofs.Lookup.Grammar
import CastGuard.Proofs.Text.Division

namespace CastGuard.Lookup

open CastGuard.Text

/-- The text `cs`, which follows `front`, starts with the call `c`, and a word may start there. -/
def Stands (k : Kind) (front cs : List Char) (c : Call) : Prop :=
  joinsWord front.getLast? = false ∧ ∃ rest, Spells k cs c rest

/-- A text cut into the calls of a kind and characters at which no call starts. -/
structure Decomposes (k : Kind) (cs : List Char) (ps : List (Piece Call)) : Prop where
  spelled : render (Call.written k) ps = cs
  found : ∀ front c back, ps = front ++ .found c :: back →
    Stands k (render (Call.written k) front) (render (Call.written k) (.found c :: back)) c
  kept : ∀ front ch back, ps = front ++ .kept ch :: back → ∀ c,
    ¬ Stands k (render (Call.written k) front) (render (Call.written k) (.kept ch :: back)) c

theorem Call.written_ne_nil (k : Kind) (c : Call) : c.written k ≠ [] := by
  simp [Call.written]

theorem faithful_callAt? (k : Kind) : Faithful (callAt? k k.forms) (Call.written k) := by
  intro before cs c h
  obtain ⟨-, rest, hspells⟩ := callAt?_eq_some_iff.mp h
  exact ⟨⟨rest, hspells.written.symm⟩, Call.written_ne_nil k c⟩

theorem callAt?_iff_stands {k : Kind} {front cs : List Char} {c : Call} :
    callAt? k k.forms (lastOr none front) cs = some c ↔ Stands k front cs c := by
  rw [callAt?_eq_some_iff, lastOr, Option.or_none]
  rfl

theorem decomposes_iff_divides {k : Kind} {cs : List Char} {ps : List (Piece Call)} :
    Decomposes k cs ps ↔ Divides (callAt? k k.forms) (Call.written k) none cs ps := by
  constructor
  · intro h
    refine ⟨h.spelled, ?_, ?_⟩
    · intro front c back heq
      exact callAt?_iff_stands.mpr (h.found front c back heq)
    · intro front ch back heq
      rw [Option.eq_none_iff_forall_ne_some]
      intro c hc
      exact h.kept front ch back heq c (callAt?_iff_stands.mp hc)
  · intro h
    refine ⟨h.spelled, ?_, ?_⟩
    · intro front c back heq
      exact callAt?_iff_stands.mp (h.found front c back heq)
    · intro front ch back heq c hc
      have := callAt?_iff_stands.mpr hc
      rw [h.kept front ch back heq] at this
      exact absurd this (by simp)

/-- The accessor call in full.  Its last argument is the default of the look-up or, if that is
missing or empty, the kind's fallback. -/
theorem Call.typed_spelled (lib : String) (k : Kind) (c : Call) :
    ∃ last, c.typed lib k = lib.toList ++ ".".toList ++ k.accessor.toList ++ "(".toList ++
        c.container ++ ", \"".toList ++ c.key ++ "\", ".toList ++ last ++ ")".toList ∧
      ((∃ a, c.argument = some a ∧ a.value ≠ [] ∧ last = a.value) ∨
        (∀ a, c.argument = some a → a.value = []) ∧ last = k.fallback.toList) := by
  refine ⟨c.default k, by simp [Call.typed], ?_⟩
  unfold Call.default
  cases c.argument with
  | none => exact .inr ⟨nofun, rfl⟩
  | some a =>
    by_cases h : a.value = []
    · refine .inr ⟨?_, by simp [h]⟩
      rintro _ ⟨⟩
      exact h
    · exact .inl ⟨a, rfl, h, by simp [h]⟩

theorem decomposes_pieces (lib : String) (k : Kind) (cs : List Char) :
    Decomposes k cs ((Rule.ofKind lib k).pieces cs) :=
  decomposes_iff_divides.mpr (divides_pieces (faithful_callAt? k) none cs)

theorem Decomposes.eq_pieces {k : Kind} {cs : List Char} {ps : List (Piece Call)}
    (h : Decomposes k cs ps) (lib : String) : ps = (Rule.ofKind lib k).pieces cs :=
  (decomposes_iff_divides.mp h).eq_pieces (faithful_callAt? k)

/-- A rule finds the one decomposition of a text and replaces its calls, all of them and nothing
else. -/
theorem unique_decomposition (lib : String) (k : Kind) (cs : List Char) :
    ∃ ps, Decomposes k cs ps ∧ (∀ qs, Decomposes k cs qs → qs = ps) ∧
      (Rule.ofKind lib k).text cs = render (Call.typed lib k) ps ∧
      (Rule.ofKind lib k).fixes cs = (finds ps).length := by
  refine ⟨(Rule.ofKind lib k).pieces cs, decomposes_pieces lib k cs, ?_, rfl, rfl⟩
  intro qs hqs
  exact hqs.eq_pieces lib

example : (Rule.ofKind "DictUtils" .int).text
    "hp = int(foe.stats.get(\"hp\", 10)) - int(hit.get(\"by\"))".toList =
    "hp = DictUtils.get_int(foe.stats, \"hp\", 10) - DictUtils.get_int(hit, \"by\", 0)".toList := by
  decide +kernel

end CastGuard.Lookup
