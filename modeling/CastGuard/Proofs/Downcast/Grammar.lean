/-
# `CastGuard.Proofs.Downcast.Grammar` — what a statement that ends in a cast is

The grammar of a line, said without the reader.  A statement is an indent, a destination, a value
and a cast to a known type, with blanks behind it; `Statement.Fits` says what each of them may be.
A line has the form `f` if it is spelled like a fitting statement whose destination belongs to `f`.

What the reader finds is such a statement, whatever texts are taken for types
(`fits_of_statementIn?`).  `statementIn?_eq_some_iff` says that it finds exactly these statements,
for known types that are identifiers.  The reader takes the shortest value and the first type that
completes the line, and neither choice matters: an identifier holds no blank, so the last blank
before the trailing ones is the one in front of the type (`Cast.written_inj`), and the line has one
reading only (`Reads.unique`).
-/
import CastGuard.Downcast.Rule
import CastGuard.Proofs.Text.Classes

namespace CastGuard.Downcast

open CastGuard.Text

/-! ## The grammar -/

structure Cast.Fits (types : List (List Char)) (k : Cast) : Prop where
  value_ne_nil : k.value ≠ []
  value_line : '\n' ∉ k.value
  type_mem : k.type ∈ types
  trailing : ∀ c ∈ k.trailing, isTrailing c = true

/-- What a destination may be: a variable declared with a known type, the caller, a dotted name. -/
def Destination.Fits (types : List (List Char)) : Destination → Prop
  | .variable name type => name ≠ [] ∧ (∀ c ∈ name, isWord c = true) ∧ type ∈ types
  | .caller => True
  | .target name => Dotted name

structure Statement.Fits (types : List (List Char)) (s : Statement) : Prop where
  indent : ∀ c ∈ s.indent, isIndent c = true
  destination : s.destination.Fits types
  cast : s.cast.Fits types

/-- The line is spelled like the statement `s` of the form `f`. -/
structure Reads (f : Form) (types : List (List Char)) (line : List Char) (s : Statement) :
    Prop where
  form : s.destination.form = f
  fits : s.Fits types
  written : s.written = line

@[simp]
theorem Destination.written_variable (name type : List Char) :
    (Destination.variable name type).written =
      "var ".toList ++ (name ++ (": ".toList ++ (type ++ " = ".toList))) := rfl

@[simp]
theorem Destination.written_caller : Destination.caller.written = "return ".toList := rfl

@[simp]
theorem Destination.written_target (name : List Char) :
    (Destination.target name).written = name ++ " = ".toList := rfl

/-! ## Ends of lines -/

theorem endsLine_iff {cs : List Char} :
    endsLine cs = true ↔ ∀ c, cs.head? = some c → c = '\n' := by
  cases cs with
  | nil => simp [endsLine]
  | cons c cs => simp [endsLine]

theorem isTrailing_of_endsLine {rest : List Char} (h : endsLine rest = true) :
    ∀ c, rest.head? = some c → isTrailing c = false := by
  intro c hc
  rw [endsLine_iff.mp h c hc]
  rfl

theorem isBlank_of_isTrailing {c : Char} (h : isTrailing c = true) : isBlank c = true := by
  simp only [isTrailing, Bool.or_eq_true, beq_iff_eq] at h
  rcases h with (rfl | rfl) | rfl <;> decide

theorem continues_of_isTrailing {c : Char} (h : isTrailing c = true) :
    continuesIdentifier c = false := by
  simp only [isTrailing, Bool.or_eq_true, beq_iff_eq] at h
  rcases h with (rfl | rfl) | rfl <;> decide

theorem continues_of_lineEnd {w rest : List Char} (hw : ∀ c ∈ w, isTrailing c = true)
    (hrest : endsLine rest = true) :
    ∀ c, (w ++ rest).head? = some c → continuesIdentifier c = false := by
  intro c hc
  cases w with
  | nil =>
    rw [endsLine_iff.mp hrest c hc]
    decide
  | cons d w =>
    obtain rfl : d = c := by simpa using hc
    exact continues_of_isTrailing (hw d List.mem_cons_self)

theorem isLineChar {cs : List Char} (h : '\n' ∉ cs) : ∀ c ∈ cs, (c != '\n') = true :=
  fun _ hc => bne_iff_ne.mpr fun heq => h (heq ▸ hc)

theorem isLineChar_endsLine {rest : List Char} (h : endsLine rest = true) :
    ∀ c, rest.head? = some c → (c != '\n') = false := by
  intro c hc
  simp [endsLine_iff.mp h c hc]

theorem trailing?_eq_some_iff {cs w rest : List Char} :
    trailing? cs = some (w, rest) ↔
      (∀ c ∈ w, isTrailing c = true) ∧ endsLine rest = true ∧ cs = w ++ rest := by
  unfold trailing?
  constructor
  · intro h
    split at h
    · next hends =>
      obtain ⟨rfl, rfl⟩ : cs.takeWhile isTrailing = w ∧ cs.dropWhile isTrailing = rest := by
        simpa using h
      exact ⟨List.all_eq_true.mp List.all_takeWhile, hends,
        List.takeWhile_append_dropWhile.symm⟩
    · exact absurd h (by simp)
  · rintro ⟨hw, hends, rfl⟩
    have stop := isTrailing_of_endsLine hends
    rw [takeWhile_append_stop hw stop, dropWhile_append_stop hw stop, if_pos hends]

/-! ## Starts of lines -/

theorem isBlank_of_isIndent {c : Char} (h : isIndent c = true) : isBlank c = true := by
  simp only [isIndent, Bool.or_eq_true, beq_iff_eq] at h
  rcases h with rfl | rfl <;> decide

theorem isIndent_of_isWord {c : Char} (h : isWord c = true) : isIndent c = false := by
  rw [← Bool.not_eq_true]
  intro hindent
  simp only [isIndent, Bool.or_eq_true, beq_iff_eq] at hindent
  rcases hindent with rfl | rfl
  all_goals exact absurd h (by decide)

/-- A destination starts with a word, so that the indent ends where it begins. -/
theorem Destination.Fits.head_isIndent {types : List (List Char)} {d : Destination}
    (h : d.Fits types) (cs : List Char) :
    ∀ c, (d.written ++ cs).head? = some c → isIndent c = false := by
  intro c hc
  rcases d with ⟨name, t⟩ | _ | name
  · obtain rfl : 'v' = c := by simpa using hc
    rfl
  · obtain rfl : 'r' = c := by simpa using hc
    rfl
  · have hdotted : Dotted name := h
    obtain ⟨d, ds, rfl⟩ := List.exists_cons_of_ne_nil hdotted.ne_nil
    obtain rfl : d = c := by simpa using hc
    exact isIndent_of_isWord (hdotted.head_isWord d rfl)

/-! ## The cast -/

/-- When all members of a list that answer give one answer, the order of the list is irrelevant. -/
theorem findSome?_eq_some_of_unique {α β : Type} {f : α → Option β} {as : List α} {a : α} {b : β}
    (hmem : a ∈ as) (hf : f a = some b) (hunique : ∀ a' ∈ as, ∀ b', f a' = some b' → b' = b) :
    as.findSome? f = some b := by
  have hsome : (as.findSome? f).isSome := by
    rw [List.findSome?_isSome_iff]
    exact ⟨a, hmem, Option.isSome_of_eq_some hf⟩
  obtain ⟨b', hb'⟩ := Option.isSome_iff_exists.mp hsome
  obtain ⟨a', ha', hfa'⟩ := List.exists_of_findSome?_eq_some hb'
  rw [hb', hunique a' ha' b' hfa']

theorem typeAndTrailing_iff {cs u t w rest : List Char} :
    ((after? u cs).bind fun cs =>
      (trailing? cs).map fun (trailing, rest) => ((u, trailing), rest)) = some ((t, w), rest) ↔
    t = u ∧ (∀ c ∈ w, isTrailing c = true) ∧ endsLine rest = true ∧ cs = u ++ (w ++ rest) := by
  simp only [Option.bind_eq_some_iff, Option.map_eq_some_iff, after?_eq_some_iff]
  constructor
  · rintro ⟨r, rfl, ⟨w', rest'⟩, htrailing, heq⟩
    obtain ⟨hpair, rfl⟩ := Prod.mk.inj heq
    obtain ⟨rfl, rfl⟩ := Prod.mk.inj hpair
    obtain ⟨hw, hends, rfl⟩ := trailing?_eq_some_iff.mp htrailing
    exact ⟨rfl, hw, hends, rfl⟩
  · rintro ⟨rfl, hw, hends, rfl⟩
    exact ⟨_, rfl, (w, rest), trailing?_eq_some_iff.mpr ⟨hw, hends, rfl⟩, rfl⟩

/-! ## What a reader finds -/

section Found

variable {types : List (List Char)} {cs rest : List Char} {d : Destination} {k : Cast}

theorem eq_append_of_typeAtEnd? {t w : List Char} (h : typeAtEnd? types cs = some ((t, w), rest)) :
    t ∈ types ∧ (∀ c ∈ w, isTrailing c = true) ∧ endsLine rest = true ∧
      cs = " as ".toList ++ (t ++ (w ++ rest)) := by
  unfold typeAtEnd? at h
  obtain ⟨r, hr, hfind⟩ := Option.bind_eq_some_iff.mp h
  obtain ⟨u, hu, hfound⟩ := List.exists_of_findSome?_eq_some hfind
  obtain ⟨rfl, hw, hends, rfl⟩ := typeAndTrailing_iff.mp hfound
  exact ⟨hu, hw, hends, after?_eq_some_iff.mp hr⟩

theorem fits_of_cast? (h : cast? types cs = some (k, rest)) :
    k.Fits types ∧ endsLine rest = true ∧ cs = k.written ++ rest := by
  induction cs generalizing k with
  | nil => exact absurd h (by simp [cast?])
  | cons c cs ih =>
    rw [cast?] at h
    split at h
    · exact absurd h (by simp)
    · next hc =>
      have hc : c ≠ '\n' := by simpa using hc
      split at h
      · next t w r hend =>
        obtain ⟨rfl, rfl⟩ : ⟨[c], t, w⟩ = k ∧ r = rest := by simpa using h
        obtain ⟨ht, hw, hends, rfl⟩ := eq_append_of_typeAtEnd? hend
        exact ⟨⟨by simp, by simpa using hc.symm, ht, hw⟩, hends, by simp [Cast.written]⟩
      · obtain ⟨⟨k', r⟩, hcast, heq⟩ := Option.map_eq_some_iff.mp h
        obtain ⟨rfl, rfl⟩ := Prod.mk.inj heq
        obtain ⟨hfits, hends, rfl⟩ := ih hcast
        refine ⟨⟨by simp, ?_, hfits.type_mem, hfits.trailing⟩, hends, by simp [Cast.written]⟩
        exact List.not_mem_cons_of_ne_of_not_mem hc.symm hfits.value_line

theorem fits_of_declared {name t : List Char}
    (h : (do
      let cs ← after? (t ++ " = ".toList) cs
      let (cast, rest) ← cast? types cs
      return ((Destination.variable name t, cast), rest) :
        Option ((Destination × Cast) × List Char)) = some ((d, k), rest)) :
    d = .variable name t ∧ k.Fits types ∧ endsLine rest = true ∧
      cs = t ++ (" = ".toList ++ (k.written ++ rest)) := by
  simp only [Option.bind_eq_bind, Option.bind_eq_some_iff, Option.pure_def, Option.some.injEq,
    after?_eq_some_iff] at h
  obtain ⟨r, rfl, ⟨k', rest'⟩, hcast, heq⟩ := h
  obtain ⟨hpair, rfl⟩ := Prod.mk.inj heq
  obtain ⟨rfl, rfl⟩ := Prod.mk.inj hpair
  obtain ⟨hfits, hends, rfl⟩ := fits_of_cast? hcast
  exact ⟨rfl, hfits, hends, List.append_assoc ..⟩

theorem fits_of_declaration? (h : declaration? types cs = some ((d, k), rest)) :
    d.form = .declaration ∧ d.Fits types ∧ k.Fits types ∧ endsLine rest = true ∧
      cs = d.written ++ (k.written ++ rest) := by
  unfold declaration? at h
  simp only [Option.bind_eq_bind, Option.bind_eq_some_iff, after?_eq_some_iff] at h
  obtain ⟨r, rfl, ⟨name, r'⟩, hrun, r'', hcolon, hfind⟩ := h
  dsimp only at hcolon hfind
  obtain ⟨hne, hname, rfl⟩ := run?_eq_some_iff.mp hrun
  have hword : ∀ c ∈ name, isWord c = true := by
    rw [hname]
    exact List.all_eq_true.mp List.all_takeWhile
  obtain ⟨t, ht, hfound⟩ := List.exists_of_findSome?_eq_some hfind
  obtain ⟨rfl, hfits, hends, rfl⟩ := fits_of_declared hfound
  refine ⟨rfl, ⟨hne, hword, ht⟩, hfits, hends, ?_⟩
  have hr := (List.takeWhile_append_dropWhile (p := isWord) (l := r)).symm
  rw [← hname, hcolon] at hr
  rw [hr]
  simp

theorem fits_of_returning? (h : returning? types cs = some ((d, k), rest)) :
    d.form = .returning ∧ d.Fits types ∧ k.Fits types ∧ endsLine rest = true ∧
      cs = d.written ++ (k.written ++ rest) := by
  unfold returning? at h
  simp only [Option.bind_eq_bind, Option.bind_eq_some_iff, Option.pure_def, Option.some.injEq,
    after?_eq_some_iff] at h
  obtain ⟨r, rfl, ⟨k', rest'⟩, hcast, heq⟩ := h
  obtain ⟨hpair, rfl⟩ := Prod.mk.inj heq
  obtain ⟨rfl, rfl⟩ := Prod.mk.inj hpair
  obtain ⟨hfits, hends, rfl⟩ := fits_of_cast? hcast
  exact ⟨rfl, trivial, hfits, hends, rfl⟩

theorem fits_of_assignment? (h : assignment? types cs = some ((d, k), rest)) :
    d.form = .assignment ∧ d.Fits types ∧ k.Fits types ∧ endsLine rest = true ∧
      cs = d.written ++ (k.written ++ rest) := by
  unfold assignment? at h
  simp only [Option.bind_eq_bind, Option.bind_eq_some_iff, Option.pure_def] at h
  obtain ⟨⟨name, r⟩, hrun, h⟩ := h
  obtain ⟨hne, hname, rfl⟩ := run?_eq_some_iff.mp hrun
  by_cases hdotted : isDotted name = true
  · simp only [hdotted, Bool.not_true, Bool.false_eq_true, if_false, Option.bind_eq_some_iff,
      Option.some.injEq, after?_eq_some_iff] at h
    obtain ⟨r', hr', ⟨k', rest'⟩, hcast, heq⟩ := h
    obtain ⟨hpair, rfl⟩ := Prod.mk.inj heq
    obtain ⟨rfl, rfl⟩ := Prod.mk.inj hpair
    obtain ⟨hfits, hends, rfl⟩ := fits_of_cast? hcast
    refine ⟨rfl, .of_isDotted hdotted, hfits, hends, ?_⟩
    have hcs := (List.takeWhile_append_dropWhile (p := isDottedChar) (l := cs)).symm
    rw [← hname, hr'] at hcs
    rw [hcs]
    simp
  · simp [hdotted] at h

theorem fits_of_read? {f : Form} (h : f.read? types cs = some ((d, k), rest)) :
    d.form = f ∧ d.Fits types ∧ k.Fits types ∧ endsLine rest = true ∧
      cs = d.written ++ (k.written ++ rest) := by
  cases f with
  | declaration => exact fits_of_declaration? h
  | returning => exact fits_of_returning? h
  | assignment => exact fits_of_assignment? h

/-- What a reader finds is a statement of the grammar, whatever the types are. -/
theorem fits_of_statementIn? {f : Form} {s : Statement}
    (h : statementIn? f types cs = some (s, rest)) :
    s.destination.form = f ∧ s.Fits types ∧ endsLine rest = true ∧ cs = s.written ++ rest := by
  unfold statementIn? at h
  obtain ⟨⟨⟨d, k⟩, r⟩, hread, heq⟩ := Option.map_eq_some_iff.mp h
  obtain ⟨rfl, rfl⟩ := Prod.mk.inj heq
  obtain ⟨hform, hdest, hfits, hends, hcs⟩ := fits_of_read? hread
  refine ⟨hform, ⟨List.all_eq_true.mp List.all_takeWhile, hdest, hfits⟩, hends, ?_⟩
  have := (List.takeWhile_append_dropWhile (p := isIndent) (l := cs)).symm
  rw [hcs] at this
  simpa [Statement.written] using this

end Found

/-! ## A cast that completes the line is found -/

section Known

variable {types : List (List Char)} (htypes : ∀ t ∈ types, isIdentifier t = true)
include htypes

/-- A known type, its trailing blanks and what follows are determined by the text they make. -/
theorem type_append_inj {t w rest t' w' rest' : List Char} (ht : t ∈ types)
    (hw : ∀ c ∈ w, isTrailing c = true) (hends : endsLine rest = true) (ht' : t' ∈ types)
    (hw' : ∀ c ∈ w', isTrailing c = true) (hends' : endsLine rest' = true)
    (h : t ++ (w ++ rest) = t' ++ (w' ++ rest')) : t = t' ∧ w = w' ∧ rest = rest' := by
  obtain ⟨ht, h⟩ := run_append_inj (continues_of_mem_identifier (htypes t ht))
    (continues_of_lineEnd hw hends) (continues_of_mem_identifier (htypes t' ht'))
    (continues_of_lineEnd hw' hends') h
  exact ⟨ht, run_append_inj hw (isTrailing_of_endsLine hends) hw' (isTrailing_of_endsLine hends') h⟩

theorem typeAtEnd?_eq_some_iff {cs t w rest : List Char} :
    typeAtEnd? types cs = some ((t, w), rest) ↔
      t ∈ types ∧ (∀ c ∈ w, isTrailing c = true) ∧ endsLine rest = true ∧
        cs = " as ".toList ++ (t ++ (w ++ rest)) := by
  constructor
  · exact eq_append_of_typeAtEnd?
  · rintro ⟨ht, hw, hends, rfl⟩
    unfold typeAtEnd?
    rw [Option.bind_eq_some_iff]
    refine ⟨_, after?_append _ _, ?_⟩
    apply findSome?_eq_some_of_unique ht (typeAndTrailing_iff.mpr ⟨rfl, hw, hends, rfl⟩)
    rintro u hu ⟨⟨t', w'⟩, rest'⟩ hfound
    obtain ⟨rfl, hw', hends', heq⟩ := typeAndTrailing_iff.mp hfound
    obtain ⟨rfl, rfl, rfl⟩ := type_append_inj htypes ht hw hends hu hw' hends' heq
    rfl

theorem Cast.Fits.written_line {k : Cast} (h : k.Fits types) : '\n' ∉ k.written := by
  have htype := notMem_identifier (htypes _ h.type_mem) (c := '\n') (by decide)
  have htrailing : '\n' ∉ k.trailing := fun hmem =>
    absurd (h.trailing _ hmem) (by decide)
  simp [Cast.written, h.value_line, htype, htrailing]

theorem getLast?_type {v t : List Char} (ht : t ∈ types) :
    ∀ c, (v ++ (" as ".toList ++ t)).getLast? = some c → isTrailing c = false := by
  intro c hc
  have hmem : c ∈ t := by
    rw [← List.append_assoc, List.getLast?_append, List.getLast?_eq_some_getLast
      (isIdentifier_ne_nil (htypes t ht)), Option.some_or, Option.some.injEq] at hc
    exact hc ▸ List.getLast_mem _
  rw [← Bool.not_eq_true]
  intro hw
  have hcontinues := continues_of_mem_identifier (htypes t ht) c hmem
  rw [continues_of_isTrailing hw] at hcontinues
  exact Bool.false_ne_true hcontinues

theorem Cast.written_inj {k k' : Cast} (h : k.Fits types) (h' : k'.Fits types)
    (heq : k.written = k'.written) : k = k' := by
  have hsplit : ∀ k : Cast,
      k.written = (k.value ++ (" as ".toList ++ k.type)) ++ k.trailing := by
    intro k
    simp [Cast.written]
  -- from the end: the trailing blanks, then the type up to the blank before it
  rw [hsplit k, hsplit k'] at heq
  obtain ⟨heq, htrailing⟩ := append_run_inj h.trailing (getLast?_type htypes h.type_mem)
    h'.trailing (getLast?_type htypes h'.type_mem) heq
  have before_type : ∀ v : List Char, ∀ c, (v ++ " as ".toList).getLast? = some c →
      continuesIdentifier c = false := by
    intro v c hc
    obtain rfl : ' ' = c := by simpa [List.getLast?_append] using hc
    decide
  rw [← List.append_assoc, ← List.append_assoc] at heq
  obtain ⟨hvalue, htype⟩ := append_run_inj (continues_of_mem_identifier (htypes _ h.type_mem))
    (before_type k.value) (continues_of_mem_identifier (htypes _ h'.type_mem))
    (before_type k'.value) heq
  obtain ⟨v, t, w⟩ := k
  obtain ⟨v', t', w'⟩ := k'
  obtain rfl : v = v' := List.append_cancel_right hvalue
  obtain rfl : t = t' := htype
  obtain rfl : w = w' := htrailing
  rfl

theorem isSome_cast? {value t w rest : List Char} (hne : value ≠ []) (hline : '\n' ∉ value)
    (ht : t ∈ types) (hw : ∀ c ∈ w, isTrailing c = true) (hends : endsLine rest = true) :
    (cast? types (value ++ (" as ".toList ++ (t ++ (w ++ rest))))).isSome := by
  induction value with
  | nil => exact absurd rfl hne
  | cons c value ih =>
    obtain ⟨hc, hvalue⟩ : '\n' ≠ c ∧ '\n' ∉ value := by simpa using hline
    rw [List.cons_append, cast?, if_neg (by simpa using hc.symm)]
    split
    · rfl
    · next hend =>
      rw [Option.isSome_map]
      cases value with
      | nil =>
        -- the cast follows at once, so it would have been seen
        rw [List.nil_append, (typeAtEnd?_eq_some_iff htypes).mpr ⟨ht, hw, hends, rfl⟩] at hend
        exact absurd hend (by simp)
      | cons d value => exact ih (by simp) hvalue

theorem cast?_eq_some_iff {cs rest : List Char} {k : Cast} :
    cast? types cs = some (k, rest) ↔
      k.Fits types ∧ endsLine rest = true ∧ cs = k.written ++ rest := by
  constructor
  · exact fits_of_cast?
  · rintro ⟨hfits, hends, rfl⟩
    have hsome := isSome_cast? htypes hfits.value_ne_nil hfits.value_line hfits.type_mem
      hfits.trailing hends
    have hassoc : k.written ++ rest =
        k.value ++ (" as ".toList ++ (k.type ++ (k.trailing ++ rest))) := by simp [Cast.written]
    rw [← hassoc] at hsome
    obtain ⟨⟨k', rest'⟩, hcast⟩ := Option.isSome_iff_exists.mp hsome
    obtain ⟨hfits', hends', heq⟩ := fits_of_cast? hcast
    obtain ⟨hwritten, rfl⟩ := run_append_inj (isLineChar (hfits.written_line htypes))
      (isLineChar_endsLine hends) (isLineChar (hfits'.written_line htypes))
      (isLineChar_endsLine hends') heq
    rw [hcast, Cast.written_inj htypes hfits hfits' hwritten]

/-! ## The destination -/

theorem declared_iff {name t cs rest : List Char} {d : Destination} {k : Cast} :
    (do
      let cs ← after? (t ++ " = ".toList) cs
      let (cast, rest) ← cast? types cs
      return ((Destination.variable name t, cast), rest) :
        Option ((Destination × Cast) × List Char)) = some ((d, k), rest) ↔
    d = .variable name t ∧ k.Fits types ∧ endsLine rest = true ∧
      cs = t ++ (" = ".toList ++ (k.written ++ rest)) := by
  constructor
  · exact fits_of_declared
  · rintro ⟨rfl, hfits, hends, rfl⟩
    simp only [Option.bind_eq_bind, Option.bind_eq_some_iff, Option.pure_def, Option.some.injEq,
      after?_eq_some_iff]
    exact ⟨_, (List.append_assoc ..).symm, (k, rest),
      (cast?_eq_some_iff htypes).mpr ⟨hfits, hends, rfl⟩, rfl⟩

theorem declaration?_eq_some_iff {cs rest : List Char} {d : Destination} {k : Cast} :
    declaration? types cs = some ((d, k), rest) ↔
      d.form = .declaration ∧ d.Fits types ∧ k.Fits types ∧ endsLine rest = true ∧
        cs = d.written ++ (k.written ++ rest) := by
  constructor
  · exact fits_of_declaration?
  · rintro ⟨hform, hdest, hfits, hends, rfl⟩
    unfold declaration?
    simp only [Option.bind_eq_bind, Option.bind_eq_some_iff, after?_eq_some_iff]
    rcases d with ⟨name, t⟩ | _ | name
    · obtain ⟨hne, hword, ht⟩ := hdest
      let typed := t ++ (" = ".toList ++ (k.written ++ rest))
      have stop : ∀ c, (": ".toList ++ typed).head? = some c → isWord c = false := by
        intro c hc
        obtain rfl : ':' = c := by simpa using hc
        decide
      refine ⟨name ++ (": ".toList ++ typed), by simp [typed],
        (name, ": ".toList ++ typed), ?_, typed, rfl, ?_⟩
      · exact run?_eq_some_iff.mpr ⟨hne, (takeWhile_append_stop hword stop).symm,
          (dropWhile_append_stop hword stop).symm⟩
      · apply findSome?_eq_some_of_unique ht
          ((declared_iff htypes).mpr ⟨rfl, hfits, hends, rfl⟩)
        rintro t' ht' ⟨⟨d', k'⟩, rest'⟩ hfound
        obtain ⟨rfl, hfits', hends', heq⟩ := (declared_iff htypes).mp hfound
        -- the declared type ends at the blank in front of the equals sign
        have blank : ∀ cs : List Char, ∀ c, (" = ".toList ++ cs).head? = some c →
            continuesIdentifier c = false := by
          intro cs c hc
          obtain rfl : ' ' = c := by simpa using hc
          decide
        obtain ⟨rfl, htail⟩ := run_append_inj (continues_of_mem_identifier (htypes t ht)) (blank _)
          (continues_of_mem_identifier (htypes t' ht')) (blank _) heq
        have hcast := (cast?_eq_some_iff htypes).mpr
          ⟨hfits, hends, (List.append_cancel_left htail).symm⟩
        rw [(cast?_eq_some_iff htypes).mpr ⟨hfits', hends', rfl⟩, Option.some.injEq] at hcast
        obtain ⟨rfl, rfl⟩ := Prod.mk.inj hcast
        rfl
    · exact absurd hform (by simp [Destination.form])
    · exact absurd hform (by simp [Destination.form])

theorem returning?_eq_some_iff {cs rest : List Char} {d : Destination} {k : Cast} :
    returning? types cs = some ((d, k), rest) ↔
      d.form = .returning ∧ d.Fits types ∧ k.Fits types ∧ endsLine rest = true ∧
        cs = d.written ++ (k.written ++ rest) := by
  constructor
  · exact fits_of_returning?
  · rintro ⟨hform, -, hfits, hends, rfl⟩
    unfold returning?
    simp only [Option.bind_eq_bind, Option.bind_eq_some_iff, Option.pure_def, Option.some.injEq,
      after?_eq_some_iff]
    rcases d with ⟨name, t⟩ | _ | name
    · exact absurd hform (by simp [Destination.form])
    · exact ⟨_, rfl, (k, rest), (cast?_eq_some_iff htypes).mpr ⟨hfits, hends, rfl⟩, rfl⟩
    · exact absurd hform (by simp [Destination.form])

theorem assignment?_eq_some_iff {cs rest : List Char} {d : Destination} {k : Cast} :
    assignment? types cs = some ((d, k), rest) ↔
      d.form = .assignment ∧ d.Fits types ∧ k.Fits types ∧ endsLine rest = true ∧
        cs = d.written ++ (k.written ++ rest) := by
  constructor
  · exact fits_of_assignment?
  · rintro ⟨hform, hdest, hfits, hends, rfl⟩
    unfold assignment?
    simp only [Option.bind_eq_bind, Option.bind_eq_some_iff, Option.pure_def]
    rcases d with ⟨name, t⟩ | _ | name
    · exact absurd hform (by simp [Destination.form])
    · exact absurd hform (by simp [Destination.form])
    · have hdotted : Dotted name := hdest
      have stop : ∀ c, (" = ".toList ++ (k.written ++ rest)).head? = some c →
          isDottedChar c = false := by
        intro c hc
        obtain rfl : ' ' = c := by simpa using hc
        decide
      have hassoc : (Destination.target name).written ++ (k.written ++ rest) =
          name ++ (" = ".toList ++ (k.written ++ rest)) := by simp
      rw [hassoc]
      refine ⟨(name, " = ".toList ++ (k.written ++ rest)), ?_, ?_⟩
      · exact run?_eq_some_iff.mpr ⟨hdotted.ne_nil,
          (takeWhile_append_stop hdotted.isDottedChar stop).symm,
          (dropWhile_append_stop hdotted.isDottedChar stop).symm⟩
      · simp only [hdotted.isDotted, Bool.not_true, Bool.false_eq_true, if_false,
          Option.bind_eq_some_iff, Option.some.injEq, after?_eq_some_iff]
        exact ⟨_, rfl, (k, rest), (cast?_eq_some_iff htypes).mpr ⟨hfits, hends, rfl⟩, rfl⟩

theorem Form.read?_eq_some_iff {f : Form} {cs rest : List Char} {d : Destination} {k : Cast} :
    f.read? types cs = some ((d, k), rest) ↔
      d.form = f ∧ d.Fits types ∧ k.Fits types ∧ endsLine rest = true ∧
        cs = d.written ++ (k.written ++ rest) := by
  cases f with
  | declaration => exact declaration?_eq_some_iff htypes
  | returning => exact returning?_eq_some_iff htypes
  | assignment => exact assignment?_eq_some_iff htypes

/-! ## The statement -/

theorem Destination.Fits.written_line {d : Destination} (h : d.Fits types) :
    '\n' ∉ d.written := by
  rcases d with ⟨name, t⟩ | _ | name
  · obtain ⟨-, hword, ht⟩ := h
    have hname : '\n' ∉ name := fun hmem => absurd (hword _ hmem) (by decide)
    have htype := notMem_identifier (htypes t ht) (c := '\n') (by decide)
    simp [hname, htype]
  · decide
  · have hname : '\n' ∉ name := fun hmem =>
      absurd (Dotted.isDottedChar h _ hmem) (by decide)
    simp [hname]

theorem Statement.Fits.written_line {s : Statement} (h : s.Fits types) : '\n' ∉ s.written := by
  have hindent : '\n' ∉ s.indent := fun hmem => absurd (h.indent _ hmem) (by decide)
  simp [Statement.written, hindent, h.destination.written_line htypes, h.cast.written_line htypes]

/-- The reader finds exactly the statements of the grammar. -/
theorem statementIn?_eq_some_iff {f : Form} {cs rest : List Char} {s : Statement} :
    statementIn? f types cs = some (s, rest) ↔
      s.destination.form = f ∧ s.Fits types ∧ endsLine rest = true ∧ cs = s.written ++ rest := by
  constructor
  · exact fits_of_statementIn?
  · rintro ⟨hform, hfits, hends, rfl⟩
    unfold statementIn?
    rw [Option.map_eq_some_iff]
    have stop := hfits.destination.head_isIndent (s.cast.written ++ rest)
    have hassoc : s.written ++ rest =
        s.indent ++ (s.destination.written ++ (s.cast.written ++ rest)) := by
      simp [Statement.written]
    rw [hassoc, takeWhile_append_stop hfits.indent stop, dropWhile_append_stop hfits.indent stop]
    exact ⟨((s.destination, s.cast), rest),
      (Form.read?_eq_some_iff htypes).mpr ⟨hform, hfits.destination, hfits.cast, hends, rfl⟩, rfl⟩

theorem statementIn?_line {f : Form} {line rest r : List Char} {s : Statement}
    (hline : '\n' ∉ line) (hends : endsLine rest = true) :
    statementIn? f types (line ++ rest) = some (s, r) ↔ Reads f types line s ∧ r = rest := by
  rw [statementIn?_eq_some_iff htypes]
  constructor
  · rintro ⟨hform, hfits, hr, heq⟩
    obtain ⟨hwritten, rfl⟩ := run_append_inj (isLineChar hline) (isLineChar_endsLine hends)
      (isLineChar (hfits.written_line htypes)) (isLineChar_endsLine hr) heq
    exact ⟨⟨hform, hfits, hwritten.symm⟩, rfl⟩
  · rintro ⟨⟨hform, hfits, rfl⟩, rfl⟩
    exact ⟨hform, hfits, hends, rfl⟩

/-- A line has one reading of each form at most. -/
theorem Reads.unique {f : Form} {line : List Char} {s s' : Statement}
    (h : Reads f types line s) (h' : Reads f types line s') : s = s' := by
  have hline : '\n' ∉ line := h.written ▸ h.fits.written_line htypes
  have found : ∀ {u : Statement}, Reads f types line u →
      statementIn? f types (line ++ []) = some (u, []) :=
    fun hu => (statementIn?_line htypes hline rfl).mpr ⟨hu, rfl⟩
  have hsame := found h
  rw [found h', Option.some.injEq] at hsame
  exact (Prod.mk.inj hsame).1.symm

end Known

end CastGuard.Downcast
