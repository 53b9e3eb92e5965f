/-
# `CastGuard.Proofs.Downcast.Emitted` — the two lines that guard a cast

A guarded statement is two lines: one that holds the value in a temporary and one that tests it.
Both start with the word of their statement, `var` or `return` or the target, so it is decided by
their first words which forms they can still have:

* the holding line declares the temporary with the holder, which is no known type;
* the testing line has the form it came from, if any, and is read again only if what it ends in
  looks like a cast.

Neither is ever a statement of a later form, whatever the value and the null literal are, provided
that these hold no line end.
-/
import CastGuard.Proofs.Downcast.Lines

namespace CastGuard.Downcast

open CastGuard.Text

/-! ## Two lines -/

theorem mem_of_mem_trim {c : Char} {cs : List Char} (h : c ∈ trim cs) : c ∈ cs := by
  have front : ∀ {ds : List Char}, c ∈ trimFront ds → c ∈ ds :=
    fun hmem => (List.dropWhile_sublist _).mem hmem
  have back : c ∈ (trimFront cs).reverse := front (List.mem_reverse.mp h)
  exact front (List.mem_reverse.mp back)

/-- The line that holds the value, with the carriage return that the line had. -/
def Statement.heldLine (g : Guard) (s : Statement) : List Char :=
  s.holding g ++ if s.cast.trailing.getLast? = some '\r' then ['\r'] else []

theorem Statement.guarded_eq_lines (g : Guard) (s : Statement) :
    s.guarded g = s.heldLine g ++ '\n' :: s.testing g := by
  unfold Statement.guarded Statement.heldLine Cast.lineEnd
  split <;> simp

theorem Destination.temporary_word {types : List (List Char)} {d : Destination}
    (h : d.Fits types) : ∀ c ∈ d.temporary, isWord c = true := by
  rcases d with ⟨name, t⟩ | _ | name
  · obtain ⟨-, hword, -⟩ := h
    have hres : ∀ c ∈ "_res".toList, isWord c = true := forall_mem_of_all (by decide)
    change ∀ c ∈ '_' :: (name ++ "_res".toList), isWord c = true
    intro c hc
    rcases List.mem_cons.mp hc with rfl | hc
    · decide
    · rcases List.mem_append.mp hc with hc | hc
      · exact hword c hc
      · exact hres c hc
  · change ∀ c ∈ "_return_res".toList, isWord c = true
    exact forall_mem_of_all (by decide)
  · change ∀ c ∈ "_loaded_res".toList, isWord c = true
    exact forall_mem_of_all (by decide)

theorem Destination.temporary_line {types : List (List Char)} {d : Destination}
    (h : d.Fits types) : '\n' ∉ d.temporary :=
  fun hmem => absurd (Destination.temporary_word h _ hmem) (by decide)

section Known

variable {types : List (List Char)} (htypes : ∀ t ∈ types, isIdentifier t = true)
  {g : Guard} {s : Statement} (hs : s.Fits types)
include hs

theorem Statement.heldLine_line (hholder : isIdentifier g.holder.toList = true) :
    '\n' ∉ s.heldLine g := by
  have hindent : '\n' ∉ s.indent := fun hmem => absurd (hs.indent _ hmem) (by decide)
  have htemporary := Destination.temporary_line hs.destination
  have hname := notMem_identifier hholder (c := '\n') (by decide)
  have hvalue : '\n' ∉ trim s.cast.value := fun hmem =>
    hs.cast.value_line (mem_of_mem_trim hmem)
  have hreturn : '\n' ∉ (if s.cast.trailing.getLast? = some '\r' then ['\r'] else []) := by
    split <;> decide
  simp [Statement.heldLine, Statement.holding, hindent, htemporary, hname, hvalue, hreturn]

/-- The testing line copies the line of its statement, but for the value. -/
theorem Statement.testing_line_of_written (hwritten : '\n' ∉ s.written)
    (hnull : '\n' ∉ g.null.toList) :
    '\n' ∉ s.testing g := by
  have htemporary := Destination.temporary_line hs.destination
  simp only [Statement.written, Cast.written, List.mem_append, not_or] at hwritten
  obtain ⟨hindent, hdestination, -, -, htype, htrailing⟩ := hwritten
  simp [Statement.testing, hindent, htemporary, htype, htrailing, hnull, hdestination]

include htypes in
theorem Statement.testing_line (hnull : '\n' ∉ g.null.toList) : '\n' ∉ s.testing g :=
  s.testing_line_of_written hs (hs.written_line htypes) hnull

end Known

/-- A rule that finds nothing in either of two guarded lines finds nothing in both together. -/
theorem Rule.on_guarded {r : Rule} (hr : r.OnLines) {g : Guard} {s : Statement}
    (hheld : r.text (s.heldLine g) = s.heldLine g ∧ r.fixes (s.heldLine g) = 0)
    (htesting : r.text (s.testing g) = s.testing g ∧ r.fixes (s.testing g) = 0) :
    r.text (s.guarded g) = s.guarded g ∧ r.fixes (s.guarded g) = 0 := by
  rw [s.guarded_eq_lines, Rule.text_append hr, Rule.fixes_append hr, hheld.1, hheld.2, htesting.1,
    htesting.2]
  exact ⟨rfl, rfl⟩

/-! ## What a line starts with -/

section Body

variable {types : List (List Char)} {f : Form} {indent body : List Char} {s : Statement}

theorem Reads.body_eq (hindent : ∀ c ∈ indent, isIndent c = true)
    (hbody : ∀ c, body.head? = some c → isIndent c = false)
    (h : Reads f types (indent ++ body) s) :
    s.indent = indent ∧ s.destination.written ++ s.cast.written = body :=
  run_append_inj h.fits.indent (h.fits.destination.head_isIndent _) hindent hbody h.written

theorem not_reads_returning_var (hindent : ∀ c ∈ indent, isIndent c = true)
    (body : List Char) :
    ¬ Reads .returning types (indent ++ ("var ".toList ++ body)) s := by
  intro h
  have hbody : ∀ c, ("var ".toList ++ body).head? = some c → isIndent c = false := by
    intro c hc
    obtain rfl : 'v' = c := by simpa using hc
    rfl
  obtain ⟨-, heq⟩ := h.body_eq hindent hbody
  have hform := h.form
  rcases hd : s.destination with ⟨name, t⟩ | _ | name
  · exact absurd (hd ▸ hform) (by simp [Destination.form])
  · rw [hd] at heq
    exact absurd heq (by simp)
  · exact absurd (hd ▸ hform) (by simp [Destination.form])

theorem not_reads_assignment {w : List Char} {c : Char}
    (hindent : ∀ c ∈ indent, isIndent c = true) (hne : w ≠ [])
    (hw : ∀ c ∈ w, isWord c = true) (hc : c ≠ '=') :
    ¬ Reads .assignment types (indent ++ (w ++ ' ' :: c :: body)) s := by
  intro h
  have hbody : ∀ d, (w ++ ' ' :: c :: body).head? = some d → isIndent d = false := by
    intro d hd
    obtain ⟨e, w, rfl⟩ := List.exists_cons_of_ne_nil hne
    obtain rfl : e = d := by simpa using hd
    exact isIndent_of_isWord (hw e List.mem_cons_self)
  obtain ⟨-, heq⟩ := h.body_eq hindent hbody
  have hform := h.form
  have hfits := h.fits.destination
  rcases hd : s.destination with ⟨name, t⟩ | _ | name
  · exact absurd (hd ▸ hform) (by simp [Destination.form])
  · exact absurd (hd ▸ hform) (by simp [Destination.form])
  · -- the target is the first word, and the equals sign behind it is missing
    rw [hd] at heq hfits
    have hdotted : Dotted name := hfits
    have blank : ∀ cs : List Char, ∀ d, (' ' :: cs).head? = some d → isDottedChar d = false := by
      intro cs d hd
      obtain rfl : ' ' = d := by simpa using hd
      decide
    have hword : ∀ d ∈ w, isDottedChar d = true := fun d hd => by simp [isDottedChar, hw d hd]
    have hsplit : (Destination.target name).written ++ s.cast.written =
        name ++ ' ' :: '=' :: ' ' :: s.cast.written := by simp
    rw [hsplit] at heq
    obtain ⟨-, htail⟩ := run_append_inj hdotted.isDottedChar (blank _) hword (blank _) heq
    obtain ⟨hequals, -⟩ := List.cons.inj (List.cons.inj htail).2
    exact hc hequals.symm

end Body

/-! ## No statement of a later form -/

theorem Destination.temporary_head (d : Destination) : ∃ rest, d.temporary = '_' :: rest := by
  rcases d with ⟨name, t⟩ | _ | name
  · exact ⟨_, rfl⟩
  · exact ⟨_, rfl⟩
  · exact ⟨_, rfl⟩

theorem Statement.heldLine_eq_var (g : Guard) (s : Statement) :
    ∃ body, s.heldLine g = s.indent ++ ("var".toList ++ ' ' :: '_' :: body) := by
  obtain ⟨rest, hrest⟩ := s.destination.temporary_head
  refine ⟨rest ++ (": ".toList ++ (g.holder.toList ++ (" = ".toList ++ (trim s.cast.value ++
    if s.cast.trailing.getLast? = some '\r' then ['\r'] else [])))), ?_⟩
  simp [Statement.heldLine, Statement.holding, hrest]

section Later

variable {types : List (List Char)} {g : Guard} {s u : Statement} (hs : s.Fits types)
include hs

theorem testing_eq_var (hform : s.destination.form = .declaration) :
    ∃ c body, c ≠ '=' ∧ s.testing g = s.indent ++ ("var".toList ++ ' ' :: c :: body) := by
  have hfits := hs.destination
  rcases hd : s.destination with ⟨name, t⟩ | _ | name
  · rw [hd] at hfits
    obtain ⟨hne, hword, -⟩ := hfits
    obtain ⟨c, name, rfl⟩ := List.exists_cons_of_ne_nil hne
    refine ⟨c, ?_⟩
    have hc : c ≠ '=' := by
      rintro rfl
      exact absurd (hword _ List.mem_cons_self) (by decide)
    simp [hc, Statement.testing, hd]
  · exact absurd (hd ▸ hform) (by simp [Destination.form])
  · exact absurd (hd ▸ hform) (by simp [Destination.form])

omit hs in
theorem testing_eq_return (hform : s.destination.form = .returning) :
    ∃ body, s.testing g = s.indent ++ ("return".toList ++ ' ' :: '_' :: body) := by
  obtain ⟨rest, hrest⟩ := s.destination.temporary_head
  rcases hd : s.destination with ⟨name, t⟩ | _ | name
  · exact absurd (hd ▸ hform) (by simp [Destination.form])
  · rw [hd] at hrest
    simp [Statement.testing, hd, hrest]
  · exact absurd (hd ▸ hform) (by simp [Destination.form])

theorem not_reads_returning_heldLine : ¬ Reads .returning types (s.heldLine g) u := by
  obtain ⟨body, hbody⟩ := s.heldLine_eq_var g
  rw [hbody]
  exact not_reads_returning_var hs.indent ('_' :: body)

theorem not_reads_assignment_heldLine : ¬ Reads .assignment types (s.heldLine g) u := by
  obtain ⟨body, hbody⟩ := s.heldLine_eq_var g
  rw [hbody]
  exact not_reads_assignment hs.indent (by decide) (forall_mem_of_all (by decide)) (by decide)

theorem not_reads_returning_testing (hform : s.destination.form = .declaration) :
    ¬ Reads .returning types (s.testing g) u := by
  obtain ⟨c, body, -, hbody⟩ := testing_eq_var (g := g) hs hform
  rw [hbody]
  exact not_reads_returning_var hs.indent (c :: body)

theorem not_reads_assignment_testing (hform : s.destination.form ≠ .assignment) :
    ¬ Reads .assignment types (s.testing g) u := by
  cases hf : s.destination.form with
  | declaration =>
    obtain ⟨c, body, hc, hbody⟩ := testing_eq_var (g := g) hs hf
    rw [hbody]
    exact not_reads_assignment hs.indent (by decide) (forall_mem_of_all (by decide)) hc
  | returning =>
    obtain ⟨body, hbody⟩ := testing_eq_return (g := g) hf
    rw [hbody]
    exact not_reads_assignment hs.indent (by decide) (forall_mem_of_all (by decide)) (by decide)
  | assignment => exact absurd hf hform

end Later

end CastGuard.Downcast
