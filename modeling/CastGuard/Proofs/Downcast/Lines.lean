/-
# `CastGuard.Proofs.Downcast.Lines` — a rule works line by line

A statement starts where a line starts and ends where it ends.  Its readers see nothing behind a
line end (`Lined`), whatever the known types are, as long as these hold none.  So a rule commutes
with cutting a text at one:

    r.text (front ++ '\n' :: back) = r.text front ++ '\n' :: r.text back

whatever the two sides are.  Sequences of rules inherit this, so that what they make of a text is
what they make of its lines, joined again, and their fixes add up over the lines.  What is left to
say is what a rule makes of a single line: a line of the rule's form whose cast can be guarded is
replaced, any other line stays.
-/
import CastGuard.Fixer
import CastGuard.Proofs.Downcast.Grammar
import CastGuard.Proofs.Text.Division

namespace CastGuard.Downcast

open CastGuard.Text

/-! ## Readers and line ends -/

/-- A reader that sees nothing behind a line end: text added there is left unread. -/
def Lined {α : Type} (read : List Char → Option (α × List Char)) : Prop :=
  ∀ front back, read (front ++ '\n' :: back) = (read front).map (Prod.map id (· ++ '\n' :: back))

section Lined

variable {α β : Type} {read : List Char → Option (α × List Char)}

theorem Lined.pure (a : α) : Lined fun cs => some (a, cs) := fun _ _ => rfl

theorem Lined.bind {next : α → List Char → Option (β × List Char)} (h : Lined read)
    (hnext : ∀ a, Lined (next a)) : Lined fun cs => (read cs).bind fun x => next x.1 x.2 := by
  intro front back
  dsimp only
  rw [h]
  cases read front with
  | none => rfl
  | some x => exact hnext x.1 x.2 back

theorem after?_append_lineEnd {lit : List Char} (h : '\n' ∉ lit) (front back : List Char) :
    after? lit (front ++ '\n' :: back) = (after? lit front).map (· ++ '\n' :: back) := by
  induction lit generalizing front with
  | nil => simp
  | cons l lit ih =>
    obtain ⟨hl, hlit⟩ : '\n' ≠ l ∧ '\n' ∉ lit := by simpa using h
    cases front with
    | nil => simp [after?, hl.symm]
    | cons c front =>
      by_cases hc : l = c
      · simp [after?, hc, ih hlit]
      · simp [after?, hc]

theorem Lined.behind {lit : List Char} (hlit : '\n' ∉ lit) (h : Lined read) :
    Lined fun cs => (after? lit cs).bind read := by
  intro front back
  dsimp only
  rw [after?_append_lineEnd hlit]
  cases after? lit front with
  | none => rfl
  | some cs => exact h cs back

theorem Lined.first {γ : Type} {reads : γ → List Char → Option (α × List Char)} {cs : List γ}
    (h : ∀ c ∈ cs, Lined (reads c)) : Lined fun text => cs.findSome? fun c => reads c text := by
  intro front back
  dsimp only
  induction cs with
  | nil => rfl
  | cons c cs ih =>
    obtain ⟨hc, hcs⟩ := List.forall_mem_cons.mp h
    rw [List.findSome?_cons, List.findSome?_cons, hc]
    cases reads c front with
    | none => exact ih hcs
    | some x => rfl

theorem lined_run? {p : Char → Bool} (hp : p '\n' = false) : Lined (run? p) := by
  intro front back
  unfold run?
  rw [takeWhile_append_outside hp, dropWhile_append_outside hp]
  split <;> rfl

theorem endsLine_append (front back : List Char) :
    endsLine (front ++ '\n' :: back) = endsLine front := by
  cases front <;> rfl

theorem lined_trailing? : Lined trailing? := by
  intro front back
  unfold trailing?
  rw [takeWhile_append_outside rfl, dropWhile_append_outside rfl, endsLine_append]
  split <;> rfl

variable {types : List (List Char)} (htypes : ∀ t ∈ types, '\n' ∉ t)
include htypes

theorem lined_typeAtEnd? : Lined (typeAtEnd? types) := by
  refine .behind (by decide) (.first fun t ht => .behind (htypes t ht) ?_)
  intro front back
  dsimp only
  rw [lined_trailing?]
  cases trailing? front <;> rfl

theorem lined_cast? : Lined (cast? types) := by
  intro front back
  induction front with
  | nil => rfl
  | cons c front ih =>
    rw [List.cons_append, cast?, cast?, lined_typeAtEnd? htypes]
    by_cases hc : (c == '\n') = true
    · rw [if_pos hc, if_pos hc]
      rfl
    · rw [if_neg hc, if_neg hc, ih]
      cases typeAtEnd? types front with
      | some x => rfl
      | none => cases cast? types front <;> rfl

theorem lined_read? (f : Form) : Lined (f.read? types) := by
  have hcast := lined_cast? htypes
  cases f with
  | declaration =>
    have hdeclared : ∀ name, Lined fun cs => (after? ": ".toList cs).bind fun cs =>
        types.findSome? fun t => (after? (t ++ " = ".toList) cs).bind fun cs =>
          (cast? types cs).bind fun x => some ((Destination.variable name t, x.1), x.2) := by
      intro name
      refine .behind (by decide) (.first fun t ht => ?_)
      exact .behind (by simp [htypes t ht]) (.bind hcast fun k => .pure _)
    exact .behind (by decide) (.bind (lined_run? (p := isWord) rfl) hdeclared)
  | returning => exact .behind (by decide) (.bind hcast fun k => .pure _)
  | assignment =>
    have hassigned : ∀ name, Lined fun cs => if !isDotted name then none else
        (after? " = ".toList cs).bind fun cs =>
          (cast? types cs).bind fun x => some ((Destination.target name, x.1), x.2) := by
      intro name
      split
      · exact fun _ _ => rfl
      · exact .behind (by decide) (.bind hcast fun k => .pure _)
    exact .bind (lined_run? (p := isDottedChar) rfl) hassigned

theorem lined_statementIn? (f : Form) : Lined (statementIn? f types) := by
  intro front back
  unfold statementIn?
  rw [takeWhile_append_outside rfl, dropWhile_append_outside rfl, lined_read? htypes]
  cases f.read? types (front.dropWhile isIndent) <;> rfl

end Lined

/-! ## The recogniser -/

theorem Statement.written_ne_nil (s : Statement) : s.written ≠ [] := by
  simp [Statement.written, Cast.written]

/-- What the recogniser finds is a statement of the grammar that starts a line and ends it. -/
theorem fits_of_statementAt? {f : Form} {types : List (List Char)} {before : Option Char}
    {cs : List Char} {s : Statement} (h : statementAt? f types before cs = some s) :
    startsLine before = true ∧ s.destination.form = f ∧ s.Fits types ∧
      ∃ rest, endsLine rest = true ∧ cs = s.written ++ rest := by
  unfold statementAt? at h
  split at h
  · next hstart =>
    obtain ⟨⟨s', rest⟩, hread, rfl⟩ := Option.map_eq_some_iff.mp h
    obtain ⟨hform, hfits, hends, hcs⟩ := fits_of_statementIn? hread
    exact ⟨hstart, hform, hfits, rest, hends, hcs⟩
  · exact absurd h (by simp)

theorem faithful_statementAt? (types : List (List Char)) (f : Form) :
    Faithful (statementAt? f types) Statement.written := by
  intro before cs s h
  obtain ⟨-, -, -, rest, -, rfl⟩ := fits_of_statementAt? h
  exact ⟨List.prefix_append _ _, s.written_ne_nil⟩

theorem stopsAt_statementAt? {types : List (List Char)} (htypes : ∀ t ∈ types, '\n' ∉ t)
    (f : Form) : StopsAt '\n' (statementAt? f types) := by
  constructor
  · intro before front back
    unfold statementAt?
    rw [lined_statementIn? htypes, Option.map_map]
    rfl
  · intro before
    rw [Option.eq_none_iff_forall_ne_some]
    intro s h
    obtain ⟨-, -, -, rest, -, heq⟩ := fits_of_statementAt? h
    exact s.written_ne_nil (List.append_eq_nil_iff.mp heq.symm).1

theorem statementAt?_eq_some_iff {types : List (List Char)}
    (htypes : ∀ t ∈ types, isIdentifier t = true) {f : Form} {before : Option Char}
    {cs : List Char} {s : Statement} :
    statementAt? f types before cs = some s ↔
      startsLine before = true ∧ s.destination.form = f ∧ s.Fits types ∧
        ∃ rest, endsLine rest = true ∧ cs = s.written ++ rest := by
  constructor
  · exact fits_of_statementAt?
  · rintro ⟨hstart, hform, hfits, rest, hends, rfl⟩
    rw [statementAt?, if_pos hstart,
      (statementIn?_eq_some_iff htypes).mpr ⟨hform, hfits, hends, rfl⟩]
    rfl

/-! ## A rule and the lines of a text -/

def Rule.Known (r : Rule) : Prop := ∀ t ∈ r.typeTexts, isIdentifier t = true

def Rule.OnLines (r : Rule) : Prop := ∀ t ∈ r.typeTexts, '\n' ∉ t

theorem Rule.Known.onLines {r : Rule} (hr : r.Known) : r.OnLines :=
  fun t ht => notMem_identifier (hr t ht) (by decide)

theorem Rule.pieces_append {r : Rule} (hr : r.OnLines) (front back : List Char) :
    r.pieces (front ++ '\n' :: back) = r.pieces front ++ .kept '\n' :: r.pieces back := by
  unfold Rule.pieces
  rw [pieces_append_of_stopsAt (stopsAt_statementAt? hr r.form) (faithful_statementAt? _ r.form)]
  have hbefore : statementAt? r.form r.typeTexts (some '\n') back =
      statementAt? r.form r.typeTexts none back := rfl
  rw [pieces_congr_before hbefore]

theorem Rule.text_append {r : Rule} (hr : r.OnLines) (front back : List Char) :
    r.text (front ++ '\n' :: back) = r.text front ++ '\n' :: r.text back := by
  rw [Rule.text, Rule.pieces_append hr, render_append]
  rfl

theorem Rule.fixes_append {r : Rule} (hr : r.OnLines) (front back : List Char) :
    r.fixes (front ++ '\n' :: back) = r.fixes front + r.fixes back := by
  simp [Rule.fixes, Rule.pieces_append hr]

def downcasts (rs : List Rule) : List CastGuard.Rule := rs.map .downcast

theorem downcasts_append {rs : List Rule} (hrs : ∀ r ∈ rs, r.OnLines) (front back : List Char) :
    afterRules (downcasts rs) (front ++ '\n' :: back) =
        afterRules (downcasts rs) front ++ '\n' :: afterRules (downcasts rs) back ∧
      trailFixes (trail (downcasts rs) (front ++ '\n' :: back)) =
        trailFixes (trail (downcasts rs) front) + trailFixes (trail (downcasts rs) back) := by
  induction rs generalizing front back with
  | nil => exact ⟨rfl, rfl⟩
  | cons r rs ih =>
    obtain ⟨hr, hlater⟩ := List.forall_mem_cons.mp hrs
    obtain ⟨htext, hfixes⟩ := ih hlater (r.text front) (r.text back)
    have htrail : ∀ cs, trailFixes (trail (downcasts (r :: rs)) cs) =
        r.fixes cs + trailFixes (trail (downcasts rs) (r.text cs)) :=
      trailFixes_trail_cons (.downcast r) (downcasts rs)
    rw [← Rule.text_append hr] at htext hfixes
    refine ⟨htext, ?_⟩
    rw [htrail, htrail, htrail, hfixes, Rule.fixes_append hr]
    omega

def Rule.guards (r : Rule) (cs : List Char) : List Statement :=
  (finds (r.pieces cs)).filter Statement.consistent

theorem Rule.guards_eq_nil {r : Rule} {cs : List Char} (h : r.fixes cs = 0) : r.guards cs = [] :=
  List.length_eq_zero_iff.mp h

theorem Rule.guards_append {r : Rule} (hr : r.OnLines) (front back : List Char) :
    r.guards (front ++ '\n' :: back) = r.guards front ++ r.guards back := by
  simp [Rule.guards, Rule.pieces_append hr]

theorem Rule.fits_of_mem_finds {r : Rule} {cs : List Char} {s : Statement}
    (h : s ∈ finds (r.pieces cs)) : s.destination.form = r.form ∧ s.Fits r.typeTexts := by
  obtain ⟨front, back, hps⟩ := exists_append_of_mem_finds h
  have hdivides := divides_pieces (faithful_statementAt? r.typeTexts r.form) none cs
  obtain ⟨-, hform, hfits, -⟩ := fits_of_statementAt? (hdivides.found front s back hps)
  exact ⟨hform, hfits⟩

theorem Rule.render_pieces (r : Rule) (cs : List Char) :
    render Statement.written (r.pieces cs) = cs :=
  (divides_pieces (faithful_statementAt? r.typeTexts r.form) none cs).spelled

/-! ## A rule and a single line -/

theorem pieces_inside_line (f : Form) (types : List (List Char)) {before : Char} {cs : List Char}
    (hbefore : before ≠ '\n') (hcs : '\n' ∉ cs) :
    Text.pieces (statementAt? f types) Statement.written (some before) cs = cs.map .kept := by
  induction cs generalizing before with
  | nil => rw [Text.pieces]; rfl
  | cons c cs ih =>
    obtain ⟨hc, hmem⟩ : '\n' ≠ c ∧ '\n' ∉ cs := by simpa using hcs
    have hfind : statementAt? f types (some before) (c :: cs) = none := by
      simp [statementAt?, startsLine, hbefore]
    rw [pieces_of_find_none hfind, ih hc.symm hmem]
    rfl

theorem Rule.pieces_line (r : Rule) {line : List Char} (hline : '\n' ∉ line) :
    (∃ s, Reads r.form r.typeTexts line s ∧ r.pieces line = [.found s]) ∨
      r.pieces line = line.map .kept := by
  cases hfind : statementAt? r.form r.typeTexts none line with
  | some s =>
    obtain ⟨-, hform, hfits, rest, hends, hwritten⟩ := fits_of_statementAt? hfind
    obtain rfl : rest = [] := by
      cases rest with
      | nil => rfl
      | cons c rest =>
        obtain rfl : c = '\n' := endsLine_iff.mp hends c rfl
        exact absurd (hwritten ▸ hline) (by simp)
    rw [List.append_nil] at hwritten
    refine .inl ⟨s, ⟨hform, hfits, hwritten.symm⟩, ?_⟩
    rw [Rule.pieces, pieces_of_find_some (faithful_statementAt? _ r.form) hfind, ← hwritten,
      List.drop_length, Text.pieces]
  | none =>
    refine .inr ?_
    cases line with
    | nil => rw [Rule.pieces, Text.pieces]; rfl
    | cons c cs =>
      obtain ⟨hc, hmem⟩ : '\n' ≠ c ∧ '\n' ∉ cs := by simpa using hline
      rw [Rule.pieces, pieces_of_find_none hfind, pieces_inside_line _ _ hc.symm hmem]
      rfl

theorem Rule.pieces_of_reads {r : Rule} (hr : r.Known) {line : List Char} {s : Statement}
    (h : Reads r.form r.typeTexts line s) : r.pieces line = [.found s] := by
  have hfind : statementAt? r.form r.typeTexts none line = some s := by
    rw [statementAt?_eq_some_iff hr]
    exact ⟨rfl, h.form, h.fits, [], rfl, by simpa using h.written.symm⟩
  rw [Rule.pieces, pieces_of_find_some (faithful_statementAt? _ r.form) hfind, h.written,
    List.drop_length, Text.pieces]

/-- The line is a statement of the form `f` whose cast can be guarded. -/
def Guardable (f : Form) (types : List (List Char)) (line : List Char) (s : Statement) : Prop :=
  Reads f types line s ∧ s.consistent = true

theorem Rule.on_guardable {r : Rule} (hr : r.Known) {line : List Char} {s : Statement}
    (h : Guardable r.form r.typeTexts line s) :
    r.text line = s.guarded r.guard ∧ r.fixes line = 1 := by
  obtain ⟨hreads, hconsistent⟩ := h
  simp [Rule.text, Rule.fixes, Rule.pieces_of_reads hr hreads, Rule.replace, hconsistent]

/-- A rule guards the cast of a line, or leaves the line alone.  The latter also happens to a line
that declares a variable of another type. -/
theorem Rule.on_line (r : Rule) {line : List Char} (hline : '\n' ∉ line) :
    (∃ s, Guardable r.form r.typeTexts line s ∧ r.text line = s.guarded r.guard ∧
      r.guards line = [s]) ∨
      (r.text line = line ∧ r.fixes line = 0) := by
  rcases r.pieces_line hline with ⟨s, hs, hpieces⟩ | hpieces
  · cases hconsistent : s.consistent with
    | true =>
      refine .inl ⟨s, ⟨hs, hconsistent⟩, ?_⟩
      simp [Rule.text, Rule.guards, hpieces, Rule.replace, hconsistent]
    | false =>
      refine .inr ?_
      simp [Rule.text, Rule.fixes, hpieces, Rule.replace, hconsistent, hs.written]
  · rw [Rule.text, Rule.fixes, hpieces, render_map_kept, finds_map_kept]
    exact .inr ⟨rfl, rfl⟩

theorem Rule.on_not_guardable {r : Rule} {line : List Char} (hline : '\n' ∉ line)
    (h : ∀ s, ¬ Guardable r.form r.typeTexts line s) : r.text line = line ∧ r.fixes line = 0 := by
  rcases r.on_line hline with ⟨s, hs, -⟩ | hquiet
  · exact absurd hs (h s)
  · exact hquiet

end CastGuard.Downcast
