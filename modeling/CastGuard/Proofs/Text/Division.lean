/-
# `CastGuard.Proofs.Text.Division` — a scan is the leftmost division of a text

A division of a text is a list of kept characters and finds that spells the text.  It is leftmost if
each find is what stands at its place and nothing at all stands at the place of a kept character,
both read in the context of the whole text: the character before the place and everything from there
on.  `divides_pieces` and `Divides.eq_pieces` say that scanning gives the leftmost division and that
there is no other.
-/
import CastGuard.Text.Scan

namespace CastGuard.Text

variable {α : Type} {find : Recogniser α} {spell : α → List Char}

/-- The character before a place of a text: the last of what precedes it, or `before` at the front
of the text. -/
def lastOr (before : Option Char) (front : List Char) : Option Char := front.getLast?.or before

/-- `ps` is a leftmost division of the text `cs`, which stands behind the character `before`. -/
structure Divides (find : Recogniser α) (spell : α → List Char) (before : Option Char)
    (cs : List Char) (ps : List (Piece α)) : Prop where
  spelled : render spell ps = cs
  found : ∀ front a back, ps = front ++ .found a :: back →
    find (lastOr before (render spell front)) (render spell (.found a :: back)) = some a
  kept : ∀ front c back, ps = front ++ .kept c :: back →
    find (lastOr before (render spell front)) (render spell (.kept c :: back)) = none

@[simp]
theorem lastOr_nil (before : Option Char) : lastOr before [] = before := rfl

theorem lastOr_append (before : Option Char) (front cs : List Char) :
    lastOr before (front ++ cs) = lastOr (lastOr before front) cs := by
  simp [lastOr, List.getLast?_append, Option.or_assoc]

theorem lastOr_cons (before : Option Char) (c : Char) (cs : List Char) :
    lastOr before (c :: cs) = lastOr (some c) cs := lastOr_append before [c] cs

theorem lastOr_of_ne_nil (before : Option Char) {cs : List Char} (h : cs ≠ []) :
    lastOr before cs = cs.getLast? := by
  unfold lastOr
  cases hlast : cs.getLast? with
  | none => exact absurd (List.getLast?_eq_none_iff.mp hlast) h
  | some c => rfl

theorem render_append (ps qs : List (Piece α)) :
    render spell (ps ++ qs) = render spell ps ++ render spell qs := List.flatMap_append

theorem render_map_kept (cs : List Char) : render spell (cs.map .kept) = cs := by
  induction cs with
  | nil => rfl
  | cons c cs ih => rw [List.map_cons, render_kept, ih]

@[simp]
theorem finds_nil : finds ([] : List (Piece α)) = [] := rfl

@[simp]
theorem finds_kept (c : Char) (ps : List (Piece α)) : finds (.kept c :: ps) = finds ps := rfl

@[simp]
theorem finds_found (a : α) (ps : List (Piece α)) : finds (.found a :: ps) = a :: finds ps := rfl

@[simp]
theorem finds_append (ps qs : List (Piece α)) : finds (ps ++ qs) = finds ps ++ finds qs :=
  List.filterMap_append

theorem finds_map_kept (cs : List Char) : finds (cs.map .kept : List (Piece α)) = [] := by
  induction cs with
  | nil => rfl
  | cons c cs ih => exact ih

theorem exists_append_of_mem_finds {ps : List (Piece α)} {a : α} (h : a ∈ finds ps) :
    ∃ front back, ps = front ++ .found a :: back := by
  obtain ⟨p, hp, ha⟩ := List.mem_filterMap.mp h
  cases p with
  | kept c => exact absurd ha (by simp [Piece.found?])
  | found b =>
    obtain rfl : b = a := by simpa [Piece.found?] using ha
    exact List.append_of_mem hp

/-- What the recogniser answers is spelled at the front of the text, and not with nothing. -/
def Faithful (find : Recogniser α) (spell : α → List Char) : Prop :=
  ∀ before cs a, find before cs = some a → spell a <+: cs ∧ spell a ≠ []

theorem pieces_of_find_none {before : Option Char} {c : Char} {cs : List Char}
    (h : find before (c :: cs) = none) :
    pieces find spell before (c :: cs) = .kept c :: pieces find spell (some c) cs := by
  rw [pieces, h]

theorem pieces_of_find_some (hfaithful : Faithful find spell) {before : Option Char}
    {cs : List Char} {a : α} (h : find before cs = some a) :
    pieces find spell before cs =
      .found a :: pieces find spell (spell a).getLast? (cs.drop (spell a).length) := by
  obtain ⟨hpre, hne⟩ := hfaithful _ _ _ h
  cases cs with
  | nil => exact absurd (List.prefix_nil.mp hpre) hne
  | cons c cs =>
    rw [pieces, h]
    exact dif_pos (List.length_pos_iff.mpr hne)

theorem Divides.nil (before : Option Char) : Divides find spell before [] [] := by
  refine ⟨rfl, ?_, ?_⟩
  all_goals
    intro front _ back heq
    exact absurd heq (by simp)

theorem Divides.cons_kept {before : Option Char} {c : Char} {cs : List Char}
    {ps : List (Piece α)} (hfind : find before (c :: cs) = none)
    (h : Divides find spell (some c) cs ps) :
    Divides find spell before (c :: cs) (.kept c :: ps) := by
  refine ⟨by rw [render_kept, h.spelled], ?_, ?_⟩
  · intro front a back heq
    cases front with
    | nil => exact absurd heq (by simp)
    | cons p front =>
      obtain ⟨rfl, hps⟩ := List.cons.inj heq
      rw [render_kept, lastOr_cons]
      exact h.found front a back hps
  · intro front d back heq
    cases front with
    | nil =>
      obtain ⟨hd, rfl⟩ := List.cons.inj heq
      obtain rfl := Piece.kept.inj hd
      rw [render_kept, h.spelled]
      exact hfind
    | cons p front =>
      obtain ⟨rfl, hps⟩ := List.cons.inj heq
      rw [render_kept, lastOr_cons]
      exact h.kept front d back hps

theorem Divides.cons_found {before : Option Char} {a : α} {cs : List Char}
    {ps : List (Piece α)} (hfind : find before (spell a ++ cs) = some a) (hne : spell a ≠ [])
    (h : Divides find spell (spell a).getLast? cs ps) :
    Divides find spell before (spell a ++ cs) (.found a :: ps) := by
  refine ⟨by rw [render_found, h.spelled], ?_, ?_⟩
  · intro front b back heq
    cases front with
    | nil =>
      obtain ⟨hb, rfl⟩ := List.cons.inj heq
      obtain rfl := Piece.found.inj hb
      rw [render_found, h.spelled]
      exact hfind
    | cons p front =>
      obtain ⟨rfl, hps⟩ := List.cons.inj heq
      rw [render_found, lastOr_append, lastOr_of_ne_nil before hne]
      exact h.found front b back hps
  · intro front c back heq
    cases front with
    | nil => exact absurd heq (by simp)
    | cons p front =>
      obtain ⟨rfl, hps⟩ := List.cons.inj heq
      rw [render_found, lastOr_append, lastOr_of_ne_nil before hne]
      exact h.kept front c back hps

theorem divides_pieces (h : Faithful find spell) (before : Option Char) (cs : List Char) :
    Divides find spell before cs (pieces find spell before cs) := by
  fun_induction pieces find spell before cs with
  | case1 before => exact .nil before
  | case2 before c cs hfind ih => exact .cons_kept hfind ih
  | case3 before c cs a hfind spelling _ ih =>
    obtain ⟨hpre, hne⟩ := h _ _ _ hfind
    have hcs : spell a ++ (c :: cs).drop (spell a).length = c :: cs :=
      List.prefix_iff_eq_append.mp hpre
    rw [← hcs] at hfind
    have := Divides.cons_found hfind hne ih
    rwa [hcs] at this
  | case4 before c cs a hfind spelling hpos =>
    exact absurd (List.length_pos_iff.mpr (h _ _ _ hfind).2) hpos

/-- What remains of a leftmost division behind its first piece is one of what remains of the
text. -/
theorem Divides.tail {before : Option Char} {cs : List Char} {p : Piece α} {ps : List (Piece α)}
    (h : Divides find spell before cs (p :: ps)) :
    Divides find spell (lastOr before (p.render spell)) (render spell ps) ps := by
  have front_cons : ∀ front : List (Piece α),
      render spell (p :: front) = p.render spell ++ render spell front := fun _ => rfl
  refine ⟨rfl, ?_, ?_⟩
  · intro front a back heq
    rw [← lastOr_append, ← front_cons]
    exact h.found (p :: front) a back (by rw [heq]; rfl)
  · intro front c back heq
    rw [← lastOr_append, ← front_cons]
    exact h.kept (p :: front) c back (by rw [heq]; rfl)

theorem Divides.eq_pieces (hfaithful : Faithful find spell) {before : Option Char} {cs : List Char}
    {ps : List (Piece α)} (h : Divides find spell before cs ps) :
    ps = pieces find spell before cs := by
  induction ps generalizing before cs with
  | nil =>
    obtain rfl : [] = cs := h.spelled
    rw [pieces]
  | cons p ps ih =>
    have htail := ih h.tail
    cases p with
    | kept c =>
      obtain rfl : c :: render spell ps = cs := h.spelled
      have hfind := h.kept [] c ps rfl
      rw [render_nil, lastOr_nil, render_kept] at hfind
      have hlast : lastOr before (Piece.render spell (.kept c)) = some c := rfl
      rw [hlast] at htail
      rw [pieces_of_find_none hfind, ← htail]
    | found a =>
      obtain rfl : spell a ++ render spell ps = cs := h.spelled
      have hfind := h.found [] a ps rfl
      rw [render_nil, lastOr_nil, render_found] at hfind
      obtain ⟨-, hne⟩ := hfaithful _ _ _ hfind
      have hlast : lastOr before (Piece.render spell (.found a)) = (spell a).getLast? :=
        lastOr_of_ne_nil before hne
      rw [hlast] at htail
      rw [pieces_of_find_some hfaithful hfind, List.drop_left, ← htail]

/-! ## Texts cut at a character -/

/-- A recogniser that sees nothing behind the character `sep`, and finds nothing in front of it. -/
structure StopsAt (sep : Char) (find : Recogniser α) : Prop where
  append : ∀ before front back, find before (front ++ sep :: back) = find before front
  nil : ∀ before, find before [] = none

theorem pieces_append_of_stopsAt {sep : Char} (hstops : StopsAt sep find)
    (hfaithful : Faithful find spell) (before : Option Char) (front back : List Char) :
    pieces find spell before (front ++ sep :: back) =
      pieces find spell before front ++ .kept sep :: pieces find spell (some sep) back := by
  fun_induction pieces find spell before front with
  | case1 before =>
    have hfind := hstops.append before [] back
    rw [hstops.nil] at hfind
    rw [List.nil_append] at hfind ⊢
    rw [pieces_of_find_none hfind]
    rfl
  | case2 before c cs hfind ih =>
    rw [← hstops.append before (c :: cs) back, List.cons_append] at hfind
    rw [List.cons_append, pieces_of_find_none hfind, ih]
    rfl
  | case3 before c cs a hfind spelling hpos ih =>
    obtain ⟨hpre, -⟩ := hfaithful _ _ _ hfind
    rw [← hstops.append before (c :: cs) back] at hfind
    rw [pieces_of_find_some hfaithful hfind, List.drop_append_of_le_length hpre.length_le, ih]
    rfl
  | case4 before c cs a hfind spelling hpos =>
    exact absurd (List.length_pos_iff.mpr (hfaithful _ _ _ hfind).2) hpos

/-- What is found does not depend on what precedes a text, as far as the recogniser cannot tell the
characters before it apart. -/
theorem pieces_congr_before {before before' : Option Char} {cs : List Char}
    (h : find before cs = find before' cs) :
    pieces find spell before cs = pieces find spell before' cs := by
  cases cs with
  | nil => rw [pieces, pieces]
  | cons c cs => rw [pieces, pieces, h]

end CastGuard.Text
