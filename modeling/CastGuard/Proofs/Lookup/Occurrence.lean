/-
# `CastGuard.Proofs.Lookup.Occurrence` — whether a text holds a call

Which call stands at a place depends on how its default is read; whether one does is a simpler
question.  A call stands where a word may start and the text goes on with

    wrapper(container.get("key"

and a closing, and for the question of whether it closes a plain default may have blanks in front
and may be a quoted literal: `Closes` has no side conditions.  `exists_stands_iff` is this reading
of the grammar.

A rule makes no fix in a text exactly if the text holds no call of its kind, and then leaves it as
it is.
-/
import CastGuard.Proofs.Lookup.Decomposition

namespace CastGuard.Lookup

open CastGuard.Text

/-- A call of the kind can close at the front of the text. -/
inductive Closes (k : Kind) : List Char → Prop
  | bare (rest : List Char) : Closes k (')' :: ')' :: rest)
  | plain {value : List Char} (rest : List Char) (plain : ∀ c ∈ value, isPlain c = true) :
      Closes k (',' :: (value ++ ')' :: ')' :: rest))
  | quoted {blanks inner : List Char} (rest : List Char) (kind : k = .string)
      (blank : ∀ c ∈ blanks, isBlank c = true) (unquoted : '"' ∉ inner) :
      Closes k (',' :: (blanks ++ '"' :: (inner ++ '"' :: ')' :: ')' :: rest)))

def callHead (k : Kind) (container : List Char) : List Char :=
  k.wrapper.toList ++ '(' :: (container ++ ".get(".toList)

def HasCall (k : Kind) (cs : List Char) : Prop :=
  ∃ front back c, cs = front ++ back ∧ Stands k front back c

theorem isPlain_of_isBlank {c : Char} (h : isBlank c = true) : isPlain c = true := by
  unfold isPlain
  rw [Bool.and_eq_true, bne_iff_ne, bne_iff_ne]
  constructor
  · rintro rfl
    exact absurd h (by decide)
  · rintro rfl
    exact absurd h (by decide)

theorem exists_closing_iff {k : Kind} {cs : List Char} :
    (∃ a rest, Closing k cs a rest) ↔ Closes k cs := by
  constructor
  · rintro ⟨a, rest, h⟩
    cases h with
    | bare => exact .bare rest
    | @quoted blanks inner _ hkind hblank hinner =>
      have := Closes.quoted rest hkind hblank hinner
      simpa [quotation] using this
    | @plain blanks value _ hblank _ hplain _ =>
      have hall : ∀ c ∈ blanks ++ value, isPlain c = true := by
        intro c hc
        rcases List.mem_append.mp hc with hc | hc
        · exact isPlain_of_isBlank (hblank c hc)
        · exact hplain c hc
      have := Closes.plain (k := k) rest hall
      simpa using this
  · intro h
    cases h with
    | bare rest => exact ⟨none, rest, .bare rest⟩
    | @quoted blanks inner rest hkind hblank hinner =>
      refine ⟨some ⟨blanks, quotation inner⟩, rest, ?_⟩
      have := Closing.quoted rest hkind hblank hinner
      simpa [quotation] using this
    | @plain value rest hplain =>
      -- the blanks in front are not part of the default, and then a literal may stand there
      have hblank : ∀ c ∈ value.takeWhile isBlank, isBlank c = true :=
        List.all_eq_true.mp List.all_takeWhile
      have hsplit : value ++ ')' :: ')' :: rest =
          value.takeWhile isBlank ++ (value.dropWhile isBlank ++ ')' :: ')' :: rest) := by
        rw [← List.append_assoc, List.takeWhile_append_dropWhile]
      by_cases hquote : k = .string ∧
        ClosedQuotation (value.dropWhile isBlank ++ ')' :: ')' :: rest)
      · obtain ⟨hkind, inner, rest', hinner, heq⟩ := hquote
        refine ⟨some ⟨value.takeWhile isBlank, quotation inner⟩, rest', ?_⟩
        rw [hsplit, heq]
        exact .quoted rest' hkind hblank hinner
      · refine ⟨some ⟨value.takeWhile isBlank, value.dropWhile isBlank⟩, rest, ?_⟩
        rw [hsplit]
        refine .plain rest hblank (fun c hc => head?_dropWhile_false hc) ?_ ?_
        · exact fun c hc => hplain c ((List.dropWhile_sublist _).mem hc)
        · exact fun hkind hclosed => hquote ⟨hkind, hclosed⟩

/-- A call stands where its head, a key in quotes and a closing do. -/
theorem exists_stands_iff {k : Kind} {front cs : List Char} :
    (∃ c, Stands k front cs c) ↔ joinsWord front.getLast? = false ∧
      ∃ container key tail, Dotted container ∧ key ≠ [] ∧ '"' ∉ key ∧ Closes k tail ∧
        cs = callHead k container ++ '"' :: (key ++ '"' :: tail) := by
  have opening_eq : ∀ container key tail : List Char, opening k container key ++ tail =
      callHead k container ++ '"' :: (key ++ '"' :: tail) := by
    simp [opening, callHead]
  constructor
  · rintro ⟨c, hword, rest, hspells⟩
    obtain ⟨after, rfl, hclosing⟩ := hspells.closing
    exact ⟨hword, c.container, c.key, after, hspells.dotted, hspells.key_ne_nil,
      hspells.key_unquoted, exists_closing_iff.mp ⟨_, _, hclosing⟩, opening_eq ..⟩
  · rintro ⟨hword, container, key, tail, hdotted, hne, hkey, hcloses, rfl⟩
    obtain ⟨a, rest, hclosing⟩ := exists_closing_iff.mpr hcloses
    exact ⟨⟨container, key, a⟩, hword, rest, hdotted, hne, hkey, tail, (opening_eq ..).symm,
      hclosing⟩

theorem hasCall_iff {k : Kind} {cs : List Char} :
    HasCall k cs ↔ ∃ front container key tail, joinsWord front.getLast? = false ∧
      Dotted container ∧ key ≠ [] ∧ '"' ∉ key ∧ Closes k tail ∧
        cs = front ++ (callHead k container ++ '"' :: (key ++ '"' :: tail)) := by
  constructor
  · rintro ⟨front, back, c, rfl, hstands⟩
    obtain ⟨hword, container, key, tail, hdotted, hne, hkey, hcloses, rfl⟩ :=
      exists_stands_iff.mp ⟨c, hstands⟩
    exact ⟨front, container, key, tail, hword, hdotted, hne, hkey, hcloses, rfl⟩
  · rintro ⟨front, container, key, tail, hword, hdotted, hne, hkey, hcloses, rfl⟩
    obtain ⟨c, hstands⟩ := exists_stands_iff.mpr
      ⟨hword, container, key, tail, hdotted, hne, hkey, hcloses, rfl⟩
    exact ⟨front, _, c, rfl, hstands⟩

/-! ## Rules on texts without calls -/

theorem eq_map_kept_of_finds (spell : Call → List Char) {ps : List (Piece Call)}
    (h : finds ps = []) : ps = (render spell ps).map .kept := by
  induction ps with
  | nil => rfl
  | cons p ps ih =>
    cases p with
    | kept c => rw [render_kept, List.map_cons, ← ih h]
    | found c => exact absurd h (by simp)

theorem fixes_eq_zero_iff {lib : String} {k : Kind} {cs : List Char} :
    (Rule.ofKind lib k).fixes cs = 0 ↔ ¬ HasCall k cs := by
  have hdecomposes := decomposes_pieces lib k cs
  rw [Rule.fixes, List.length_eq_zero_iff]
  constructor
  · rintro hfinds ⟨front, back, c, rfl, hstands⟩
    have hkept := eq_map_kept_of_finds (Call.written k) hfinds
    rw [hdecomposes.spelled] at hkept
    obtain ⟨rest, hspells⟩ := hstands.2
    obtain ⟨d, back, rfl⟩ : ∃ d back', back = d :: back' := by
      refine List.exists_cons_of_ne_nil fun hnil => ?_
      rw [hspells.written] at hnil
      exact Call.written_ne_nil k c (List.append_eq_nil_iff.mp hnil).1
    rw [List.map_append, List.map_cons] at hkept
    have hno := hdecomposes.kept _ d _ hkept c
    rw [render_kept, render_map_kept, render_map_kept] at hno
    exact hno hstands
  · intro hno
    rw [List.eq_nil_iff_forall_not_mem]
    intro c hc
    obtain ⟨front, back, hps⟩ := exists_append_of_mem_finds hc
    have hstands := hdecomposes.found front c back hps
    refine hno ⟨_, _, c, ?_, hstands⟩
    rw [← render_append, ← hps, hdecomposes.spelled]

theorem text_of_not_hasCall {lib : String} {k : Kind} {cs : List Char} (h : ¬ HasCall k cs) :
    (Rule.ofKind lib k).text cs = cs := by
  have hfinds : finds ((Rule.ofKind lib k).pieces cs) = [] :=
    List.length_eq_zero_iff.mp (fixes_eq_zero_iff.mpr h)
  have hkept := eq_map_kept_of_finds (Call.written k) hfinds
  rw [(decomposes_pieces lib k cs).spelled] at hkept
  rw [Rule.text, hkept, render_map_kept]

end CastGuard.Lookup
