/-
# `CastGuard.Proofs.Lookup.Rematch` — which calls a rewritten text holds

A rule copies keys and defaults into the typed accessor as they are, quotes and parentheses and all,
so a rewritten text may hold calls that were never there.  This happens in one way only.  The head
of a call ends in `.get(` and a quote follows it.  A typed accessor has a quote behind a parenthesis
only where a copied key ends in `.get(` or a copied quoted default in `.get("`, and a head, which
has no quote, then stands in that key or default (`Reopens`).  Everywhere else the head of a call in
the rewritten text consists of kept characters, and the same call head stands in the text that was
rewritten, with another key and closing perhaps.

`hasCall_of_hasCall_text` says so for a call of any kind.  For the rule's own kind no call is left
but those that a copy reopens (`rematch_inside_copy`), since no call of the kind starts at a kept
character.
-/
import CastGuard.Proofs.Lookup.Occurrence
import Mathlib.Data.List.Basic
import Mathlib.Data.List.Induction

namespace CastGuard.Lookup

open CastGuard.Text

/-! ## The two spellings of a call, cut at their quotes -/

/-- What a call of the kind is made of, whatever follows it. -/
structure Call.Fits (c : Call) : Prop where
  dotted : Dotted c.container
  key_ne_nil : c.key ≠ []
  key_unquoted : '"' ∉ c.key
  argument : ∀ a, c.argument = some a → (∀ d ∈ a.blanks, isBlank d = true) ∧
    ((∀ d ∈ a.value, isPlain d = true) ∨ ∃ inner, '"' ∉ inner ∧ a.value = quotation inner)

theorem Spells.fits {k : Kind} {cs rest : List Char} {c : Call} (h : Spells k cs c rest) :
    c.Fits := by
  refine ⟨h.dotted, h.key_ne_nil, h.key_unquoted, ?_⟩
  intro a ha
  obtain ⟨after, -, hclosing⟩ := h.closing
  rw [ha] at hclosing
  cases hclosing with
  | quoted _ _ hblank hinner => exact ⟨hblank, .inr ⟨_, hinner, rfl⟩⟩
  | plain _ hblank _ hplain _ => exact ⟨hblank, .inl hplain⟩

theorem Decomposes.fits {k : Kind} {cs : List Char} {ps : List (Piece Call)}
    (h : Decomposes k cs ps) : ∀ c ∈ finds ps, c.Fits := by
  intro c hc
  obtain ⟨front, back, hps⟩ := exists_append_of_mem_finds hc
  obtain ⟨-, rest, hspells⟩ := h.found front c back hps
  exact hspells.fits

/-- The typed accessor up to the quote in front of the key. -/
def typedHead (lib : String) (k : Kind) (c : Call) : List Char :=
  lib.toList ++ '.' :: (k.accessor.toList ++ '(' :: (c.container ++ ", ".toList))

/-- The typed accessor behind the quote after the key. -/
def typedTail (k : Kind) (c : Call) : List Char := ", ".toList ++ (c.default k ++ [')'])

def writtenTail (c : Call) : List Char := writtenArgument c.argument ++ [')', ')']

theorem Call.typed_eq (lib : String) (k : Kind) (c : Call) :
    c.typed lib k = typedHead lib k c ++ '"' :: (c.key ++ '"' :: typedTail k c) := by
  simp [Call.typed, typedHead, typedTail]

theorem Call.written_eq_head (k : Kind) (c : Call) :
    c.written k = callHead k c.container ++ '"' :: (c.key ++ '"' :: writtenTail c) := by
  simp [Call.written, callHead, writtenTail]

theorem typed_ends (lib : String) (k : Kind) (c : Call) : ∃ front, c.typed lib k = front ++ [')'] :=
  ⟨typedHead lib k c ++ '"' :: (c.key ++ '"' :: (", ".toList ++ c.default k)), by
    simp [Call.typed_eq, typedTail]⟩

theorem typed_ne_append_open (lib : String) (k : Kind) (c : Call) (front : List Char) :
    c.typed lib k ≠ front ++ ['('] := by
  intro h
  obtain ⟨typed, htyped⟩ := typed_ends lib k c
  obtain ⟨-, hlast⟩ := List.append_inj' (htyped.symm.trans h) rfl
  exact absurd hlast (by decide)

theorem written_ends (k : Kind) (c : Call) : ∃ front, c.written k = front ++ [')'] :=
  ⟨callHead k c.container ++ '"' :: (c.key ++ '"' :: (writtenArgument c.argument ++ [')'])), by
    simp [Call.written_eq_head, writtenTail]⟩

theorem Call.Fits.default_cases {c : Call} (h : c.Fits) (k : Kind) :
    (∀ d ∈ c.default k, isPlain d = true) ∨
      ∃ inner, '"' ∉ inner ∧ c.default k = quotation inner := by
  have fallback : ∀ d ∈ k.fallback.toList, isPlain d = true := by
    cases k <;> exact forall_mem_of_all (by decide)
  unfold Call.default
  cases ha : c.argument with
  | none => exact .inl fallback
  | some a =>
    obtain ⟨-, hvalue⟩ := h.argument a ha
    by_cases hempty : a.value.isEmpty = true
    · exact .inl (by simpa [hempty] using fallback)
    · simpa [hempty] using hvalue

theorem quote_notMem_dotted {cs : List Char} (h : Dotted cs) : '"' ∉ cs := by
  intro hmem
  exact absurd (h.isDottedChar _ hmem) (by decide)

theorem quote_notMem_callHead (k : Kind) {container : List Char} (h : Dotted container) :
    '"' ∉ callHead k container := by
  have hcontainer := quote_notMem_dotted h
  have hwrapper : '"' ∉ k.wrapper.toList := by cases k <;> decide
  simp [callHead, hcontainer, hwrapper]

theorem paren_notMem_head (k : Kind) {container : List Char} (h : Dotted container) :
    ')' ∉ k.wrapper.toList ++ '(' :: (container ++ ".get".toList) := by
  have hcontainer : ')' ∉ container := fun hmem => absurd (h.isDottedChar _ hmem) (by decide)
  have hwrapper : ')' ∉ k.wrapper.toList := by cases k <;> decide
  simp [hcontainer, hwrapper]

/-! ## Copied keys and defaults -/

/-- A typed accessor up to the quote that ends its key, or to the one that ends a quoted default. -/
inductive CopyEnd (lib : String) (k : Kind) (c : Call) : List Char → Prop
  | key : CopyEnd lib k c (typedHead lib k c ++ '"' :: c.key)
  | default {inner : List Char} (unquoted : '"' ∉ inner) (quoted : c.default k = quotation inner) :
      CopyEnd lib k c (typedHead lib k c ++ '"' :: (c.key ++ '"' :: (", ".toList ++ '"' :: inner)))

/-- The place behind `front` in the rewritten text is in a copied key that ends in `.get(`, or in a
copied default that ends in `.get("`. -/
inductive Reopens (lib : String) (k : Kind) (ps : List (Piece Call)) (front : List Char) : Prop
  | key {qs rs : List (Piece Call)} {c : Call} {before after : List Char}
      (found : ps = qs ++ .found c :: rs) (ends : ".get(".toList <:+ c.key)
      (split : c.key = before ++ after) (inside : after ≠ [])
      (place : front = render (Call.typed lib k) qs ++ (typedHead lib k c ++ '"' :: before))
  | default {qs rs : List (Piece Call)} {c : Call} {a : Argument} {before after : List Char}
      (found : ps = qs ++ .found c :: rs) (given : c.argument = some a)
      (ends : ".get(\"".toList <:+ a.value) (split : a.value = before ++ after)
      (inside : after ≠ [])
      (place : front = render (Call.typed lib k) qs ++
        (typedHead lib k c ++ '"' :: (c.key ++ ("\", ".toList ++ before))))

theorem argument_of_quotation {k : Kind} {c : Call} {inner : List Char}
    (h : c.default k = quotation inner) (hne : inner ≠ []) :
    ∃ a, c.argument = some a ∧ a.value = quotation inner := by
  have hfallback : k.fallback.toList ≠ quotation inner := by
    intro heq
    obtain ⟨d, inner, rfl⟩ := List.exists_cons_of_ne_nil hne
    have hlength := congrArg List.length heq
    have hhead := congrArg List.head? heq
    cases k <;> simp [Kind.fallback, quotation] at hlength hhead
  unfold Call.default at h
  cases ha : c.argument with
  | none => exact absurd (by simpa [ha] using h) hfallback
  | some a =>
    by_cases hempty : a.value = []
    · exact absurd (by simpa [ha, hempty] using h) hfallback
    · exact ⟨a, rfl, by simpa [ha, hempty] using h⟩

/-- What ends in a copied key or default, has no quote and ends in `.get(` starts there as well. -/
theorem CopyEnd.reopens {lib : String} {k : Kind} {ps qs rs : List (Piece Call)} {c : Call}
    {cut front head : List Char} (hcut : CopyEnd lib k c cut) (hps : ps = qs ++ .found c :: rs)
    (hhead : '"' ∉ head) (hget : ".get(".toList <:+ head)
    (h : render (Call.typed lib k) qs ++ cut = front ++ head) : Reopens lib k ps front := by
  have hne : head ≠ [] := by
    rintro rfl
    exact absurd (List.suffix_nil.mp hget) (by decide)
  have hsuffix : head <:+ render (Call.typed lib k) qs ++ cut := ⟨front, h.symm⟩
  cases hcut with
  | key =>
    rw [← List.append_assoc] at hsuffix
    obtain ⟨before, hkey⟩ := suffix_of_suffix_append_cons hhead hsuffix
    refine .key hps (hget.trans ⟨before, hkey⟩) hkey.symm hne ((List.append_left_inj head).mp ?_)
    rw [← h, ← hkey]
    simp
  | @default inner _ hquoted =>
    have hcut : render (Call.typed lib k) qs ++ (typedHead lib k c ++ '"' :: (c.key ++ '"' ::
        (", ".toList ++ '"' :: inner))) = (render (Call.typed lib k) qs ++ (typedHead lib k c ++
          '"' :: (c.key ++ "\", ".toList))) ++ '"' :: inner := by simp
    rw [hcut] at hsuffix h
    obtain ⟨before, hinner⟩ := suffix_of_suffix_append_cons hhead hsuffix
    have hinner_ne : inner ≠ [] := by
      rintro rfl
      exact hne (List.append_eq_nil_iff.mp hinner).2
    obtain ⟨a, ha, hvalue⟩ := argument_of_quotation hquoted hinner_ne
    obtain ⟨more, hmore⟩ := hget
    have hsplit : a.value = ('"' :: before) ++ (head ++ ['"']) := by
      simp [hvalue, quotation, ← hinner]
    refine .default hps ha ?_ hsplit (by simp) ((List.append_left_inj head).mp ?_)
    · exact ⟨'"' :: (before ++ more), by simp [hsplit, ← hmore]⟩
    · rw [← h, ← hinner]
      simp

/-! ## Typed accessors under a library name -/

section Library

variable {lib : String} (hlib : isDottedIdentifier lib.toList = true) {k : Kind} {c : Call}
include hlib

theorem quote_notMem_typedHead (hc : c.Fits) : '"' ∉ typedHead lib k c := by
  have hname := notMem_dottedIdentifier hlib (c := '"') (by decide)
  have haccessor : '"' ∉ k.accessor.toList := by cases k <;> decide
  have hcontainer := quote_notMem_dotted hc.dotted
  simp [typedHead, hname, haccessor, hcontainer]

theorem typed_head : ∃ d rest, c.typed lib k = d :: rest ∧ isNameChar d = true := by
  obtain ⟨d, name, hname⟩ := List.exists_cons_of_ne_nil (dottedIdentifier_ne_nil hlib)
  refine ⟨d, _, by rw [Call.typed, hname]; rfl, ?_⟩
  exact isNameChar_of_mem hlib d (hname ▸ List.mem_cons_self)

theorem typed_paren :
    ∃ name rest, c.typed lib k = name ++ '(' :: rest ∧ ∀ d ∈ name, isPlain d = true := by
  refine ⟨lib.toList ++ '.' :: k.accessor.toList, c.container ++ (", \"".toList ++ (c.key ++
    ("\", ".toList ++ (c.default k ++ [')'])))), by simp [Call.typed], ?_⟩
  have hopen := notMem_dottedIdentifier hlib (c := '(') (by decide)
  have hclose := notMem_dottedIdentifier hlib (c := ')') (by decide)
  have haccessor : ∀ d ∈ '.' :: k.accessor.toList, isPlain d = true := by
    cases k <;> exact forall_mem_of_all (by decide)
  intro d hd
  rcases List.mem_append.mp hd with hd | hd
  · unfold isPlain
    rw [Bool.and_eq_true, bne_iff_ne, bne_iff_ne]
    exact ⟨fun heq => hopen (heq ▸ hd), fun heq => hclose (heq ▸ hd)⟩
  · exact haccessor d hd

theorem eq_kept_cons {ps : List (Piece Call)} {d : Char} {rest : List Char}
    (hd : isNameChar d = false) (h : render (Call.typed lib k) ps = d :: rest) :
    ∃ qs, ps = .kept d :: qs ∧ render (Call.typed lib k) qs = rest := by
  cases ps with
  | nil => exact absurd h (by simp)
  | cons p ps =>
    cases p with
    | kept e =>
      obtain ⟨rfl, hrest⟩ := List.cons.inj h
      exact ⟨ps, rfl, hrest⟩
    | found c =>
      obtain ⟨e, tail, htyped, he⟩ := typed_head hlib (k := k) (c := c)
      rw [render_found, htyped, List.cons_append] at h
      obtain ⟨rfl, -⟩ := List.cons.inj h
      exact absurd he (by simp [hd])

/-! ## Where a head can stand -/

/-- The quote behind an opening parenthesis of a typed accessor ends a key or a quoted default. -/
theorem copyEnd_of_typed (hc : c.Fits) {front rest : List Char}
    (h : c.typed lib k = (front ++ ['(']) ++ '"' :: rest) : CopyEnd lib k c (front ++ ['(']) := by
  rw [Call.typed_eq] at h
  -- the quote in front of the key follows a blank
  rcases append_cons_cases (quote_notMem_typedHead hlib hc) h with ⟨hhead, -⟩ | ⟨mid, hmid, hkey⟩
  · have hblank : typedHead lib k c =
        (lib.toList ++ '.' :: (k.accessor.toList ++ '(' :: (c.container ++ [',']))) ++ [' '] := by
      simp [typedHead]
    rw [hblank] at hhead
    have hlast := congrArg List.getLast? hhead
    rw [List.getLast?_concat, List.getLast?_concat] at hlast
    exact absurd hlast (by decide)
  rcases append_cons_cases hc.key_unquoted hkey with ⟨rfl, -⟩ | ⟨tail, rfl, htail⟩
  · rw [hmid]
    exact .key
  -- behind the key only a quoted default has a parenthesis before a quote
  have hparen : ∃ tail', tail = tail' ++ ['('] := by
    have hlast := congrArg List.getLast? hmid
    obtain rfl | ⟨tail', d, rfl⟩ := List.eq_nil_or_concat' tail
    · exact absurd hlast (by simp [List.getLast?_append, List.getLast?_cons])
    · obtain rfl : '(' = d := by simpa [List.getLast?_append, List.getLast?_cons] using hlast
      exact ⟨tail', rfl⟩
  obtain ⟨tail, rfl⟩ := hparen
  have hsplit : typedTail k c = (tail ++ ['(']) ++ '"' :: rest := htail
  rcases hc.default_cases k with hplain | ⟨inner, hinner, hdefault⟩
  · have hmem : '(' ∈ typedTail k c := by simp [hsplit]
    have hdefault : '(' ∈ c.default k := by simpa [typedTail] using hmem
    exact absurd (hplain _ hdefault) (by decide)
  · have hquoted : ", ".toList ++ '"' :: (inner ++ '"' :: [')']) =
      (tail ++ ['(']) ++ '"' :: rest := by
      rw [← hsplit, typedTail, hdefault]
      simp [quotation]
    rcases append_cons_cases (by decide) hquoted with ⟨hblank, -⟩ | ⟨mid, hopen, hin⟩
    · have hlast := congrArg List.getLast? hblank
      rw [List.getLast?_concat] at hlast
      exact absurd hlast (by decide)
    rcases append_cons_cases hinner hin with ⟨rfl, -⟩ | ⟨more, -, hend⟩
    · rw [hmid, hopen]
      exact .default hinner hdefault
    · have hmem : '"' ∈ [')'] := by rw [hend]; simp
      exact absurd hmem (by decide)

/-- A parenthesis and a quote after it are kept, unless the quote ends a copied key or default. -/
theorem kept_or_copyEnd {ps : List (Piece Call)} (hps : ∀ c ∈ finds ps, c.Fits)
    {front rest : List Char} (h : render (Call.typed lib k) ps = (front ++ ['(']) ++ '"' :: rest) :
    (∃ qs rs, ps = qs ++ .kept '(' :: .kept '"' :: rs ∧ render (Call.typed lib k) qs = front ∧
      render (Call.typed lib k) rs = rest) ∨
    ∃ qs c rs cut, ps = qs ++ .found c :: rs ∧ CopyEnd lib k c cut ∧
      render (Call.typed lib k) qs ++ cut = front ++ ['('] := by
  induction ps generalizing front with
  | nil => exact absurd h (by simp)
  | cons p ps ih =>
    cases p with
    | kept d =>
      cases front with
      | nil =>
        obtain ⟨rfl, htail⟩ := List.cons.inj h
        obtain ⟨rs, rfl, hrs⟩ := eq_kept_cons hlib (by decide) htail
        exact .inl ⟨[], rs, rfl, rfl, hrs⟩
      | cons e front =>
        obtain ⟨rfl, htail⟩ := List.cons.inj h
        rcases ih hps htail with ⟨qs, rs, rfl, hqs, hrs⟩ | ⟨qs, c, rs, cut, rfl, hcut, hqs⟩
        · exact .inl ⟨.kept d :: qs, rs, rfl, by rw [render_kept, hqs], hrs⟩
        · refine .inr ⟨.kept d :: qs, c, rs, cut, rfl, hcut, ?_⟩
          rw [render_kept, List.cons_append, hqs]
          rfl
    | found c =>
      have hc := hps c (by simp)
      rw [render_found] at h
      rcases List.append_eq_append_iff.mp h with ⟨mid, hmid, htail⟩ | ⟨mid, hmid, htail⟩
      · -- the accessor ends in front of the quote, and so in front of the parenthesis
        obtain rfl | ⟨mid, e, rfl⟩ := List.eq_nil_or_concat' mid
        · rw [List.append_nil] at hmid
          exact absurd hmid.symm (typed_ne_append_open lib k c front)
        · rw [← List.append_assoc] at hmid
          obtain ⟨rfl, he⟩ := List.append_inj' hmid rfl
          obtain rfl : '(' = e := by simpa using he
          rcases ih (fun c hc => hps c (by simp [hc])) htail with
            ⟨qs, rs, rfl, hqs, hrs⟩ | ⟨qs, c', rs, cut, rfl, hcut, hqs⟩
          · exact .inl ⟨.found c :: qs, rs, rfl, by rw [render_found, hqs], hrs⟩
          · refine .inr ⟨.found c :: qs, c', rs, cut, rfl, hcut, ?_⟩
            rw [render_found, List.append_assoc, hqs, List.append_assoc]
      · cases mid with
        | nil =>
          rw [List.append_nil] at hmid
          exact absurd hmid (typed_ne_append_open lib k c front)
        | cons e mid =>
          obtain ⟨rfl, -⟩ := List.cons.inj htail
          exact .inr ⟨[], c, ps, _, rfl, copyEnd_of_typed hlib hc hmid, rfl⟩

omit hlib in
theorem eq_append_map_kept {ps : List (Piece Call)} {front run : List Char} (hrun : ')' ∉ run)
    (h : render (Call.typed lib k) ps = front ++ run) :
    ∃ qs, ps = qs ++ run.map .kept ∧ render (Call.typed lib k) qs = front := by
  induction run using List.reverseRecOn generalizing ps with
  | nil => exact ⟨ps, by simp, by simpa using h⟩
  | append_singleton run d ih =>
    obtain ⟨hrun', hd⟩ : ')' ∉ run ∧ ')' ≠ d := by simpa using hrun
    obtain rfl | ⟨ps, p, rfl⟩ := List.eq_nil_or_concat' ps
    · exact absurd h (by simp)
    · rw [render_append, ← List.append_assoc] at h
      cases p with
      | kept e =>
        obtain ⟨hps, he⟩ := List.append_inj' h rfl
        obtain ⟨qs, rfl, hqs⟩ := ih hrun' hps
        obtain rfl : e = d := by simpa using he
        exact ⟨qs, by simp, hqs⟩
      | found c =>
        obtain ⟨typed, htyped⟩ := typed_ends lib k c
        rw [render_found, render_nil, List.append_nil, htyped, ← List.append_assoc] at h
        obtain ⟨-, hlast⟩ := List.append_inj' h rfl
        exact absurd (List.cons.inj hlast).1 hd

omit hlib in
theorem joinsWord_render (lib : String) (ps : List (Piece Call)) :
    joinsWord (render (Call.typed lib k) ps).getLast? =
      joinsWord (render (Call.written k) ps).getLast? := by
  obtain rfl | ⟨ps, p, rfl⟩ := List.eq_nil_or_concat' ps
  · rfl
  · rw [render_append, render_append]
    cases p with
    | kept d => simp
    | found c =>
      obtain ⟨typed, htyped⟩ := typed_ends lib k c
      obtain ⟨written, hwritten⟩ := written_ends k c
      simp [htyped, hwritten]

end Library

/-! ## Behind the head -/

theorem Call.Fits.argument_cases {c : Call} (h : c.Fits) :
    (∀ d ∈ writtenArgument c.argument, isPlain d = true) ∨
      ∃ blanks inner, (∀ d ∈ blanks, isBlank d = true) ∧ '"' ∉ inner ∧
        ¬ (∀ d ∈ inner, isPlain d = true) ∧ c.argument = some ⟨blanks, quotation inner⟩ := by
  cases ha : c.argument with
  | none => exact .inl fun d hd => absurd hd List.not_mem_nil
  | some a =>
    obtain ⟨blanks, value⟩ := a
    obtain ⟨hblank, hvalue⟩ := h.argument _ ha
    have written_plain : (∀ d ∈ value, isPlain d = true) →
        ∀ d ∈ writtenArgument (some ⟨blanks, value⟩), isPlain d = true := by
      intro hplain d hd
      rcases List.mem_cons.mp hd with rfl | hd
      · decide
      · rcases List.mem_append.mp hd with hd | hd
        · exact isPlain_of_isBlank (hblank d hd)
        · exact hplain d hd
    rcases hvalue with hplain | ⟨inner, hinner, rfl⟩
    · exact .inl (written_plain hplain)
    · by_cases hplain : ∀ d ∈ inner, isPlain d = true
      · refine .inl (written_plain fun d hd => ?_)
        rcases List.mem_cons.mp hd with rfl | hd
        · decide
        · rcases List.mem_append.mp hd with hd | hd
          · exact hplain d hd
          · rw [List.mem_singleton.mp hd]
            decide
      · exact .inr ⟨blanks, inner, hblank, hinner, hplain, rfl⟩

theorem cut_at_close {front rest v back : List Char}
    (h : front ++ '"' :: rest = v ++ ')' :: ')' :: back) :
    (∃ mid, v = front ++ '"' :: mid ∧ rest = mid ++ ')' :: ')' :: back) ∨
      ∃ mid, front = v ++ ')' :: ')' :: mid := by
  rcases List.append_eq_append_iff.mp h with ⟨mid, rfl, hmid⟩ | ⟨mid, rfl, hmid⟩
  · cases mid with
    | nil => exact absurd hmid (by simp)
    | cons d mid =>
      obtain ⟨rfl, hrest⟩ := List.cons.inj hmid
      exact .inl ⟨mid, rfl, hrest⟩
  · rcases mid with _ | ⟨d, _ | ⟨e, mid⟩⟩
    · exact absurd hmid (by simp)
    · exact absurd hmid (by simp)
    · obtain ⟨rfl, htail⟩ := List.cons.inj hmid
      obtain ⟨rfl, -⟩ := List.cons.inj htail
      exact .inr ⟨mid, rfl⟩

theorem close_before_quote {front rest back : List Char}
    (h : front ++ '"' :: rest = ')' :: ')' :: back) : ∃ mid, front = ')' :: ')' :: mid := by
  rcases cut_at_close (v := []) h with ⟨mid, hmid, -⟩ | hmid
  · exact absurd hmid (by simp)
  · exact hmid

theorem typedTail_quotation {k : Kind} {c : Call} {blanks inner : List Char}
    (h : c.argument = some ⟨blanks, quotation inner⟩) (rest : List Char) :
    typedTail k c ++ rest = ", ".toList ++ '"' :: (inner ++ '"' :: ')' :: rest) := by
  simp [typedTail, Call.default, h, quotation]

theorem writtenTail_quotation {c : Call} {blanks inner : List Char}
    (h : c.argument = some ⟨blanks, quotation inner⟩) (rest : List Char) :
    writtenTail c ++ rest =
      ',' :: (blanks ++ '"' :: (inner ++ '"' :: ')' :: ')' :: rest)) := by
  simp [writtenTail, writtenArgument, Argument.written, h, quotation]

section Key

variable {k i : Kind} {c : Call} (hc : c.Fits) {typed written : List Char}
include hc

theorem closes_plain_behind_key {key value rest : List Char} (hkey : ∀ d ∈ key, isPlain d = true)
    (hvalue : ∀ d ∈ value, isPlain d = true)
    (h : typedTail k c ++ typed = value ++ ')' :: ')' :: rest) :
    Closes i (',' :: (key ++ '"' :: (writtenTail c ++ written))) := by
  rcases hc.argument_cases with hplain | ⟨blanks, inner, hblank, -, hinner, ha⟩
  · have hall : ∀ d ∈ key ++ '"' :: writtenArgument c.argument, isPlain d = true := by
      intro d hd
      rcases List.mem_append.mp hd with hd | hd
      · exact hkey d hd
      · rcases List.mem_cons.mp hd with rfl | hd
        · decide
        · exact hplain d hd
    have := Closes.plain (k := i) written hall
    simpa [writtenTail] using this
  · -- the first parenthesis is one of the literal's, and the call closes there
    rw [typedTail_quotation ha] at h
    rcases cut_at_close h with ⟨value, rfl, hliteral⟩ | ⟨mid, hmid⟩
    · rcases cut_at_close hliteral with ⟨mid, rfl, -⟩ | ⟨mid, rfl⟩
      · exact absurd (fun d hd => hvalue d (by simp [hd])) hinner
      · have hall : ∀ d ∈ key ++ '"' :: ',' :: (blanks ++ '"' :: value), isPlain d = true := by
          intro d hd
          simp only [List.mem_append, List.mem_cons] at hd
          rcases hd with hd | rfl | rfl | hd | rfl | hd
          · exact hkey d hd
          · decide
          · decide
          · exact isPlain_of_isBlank (hblank d hd)
          · decide
          · exact hvalue d (by simp [hd])
        have := Closes.plain (k := i) (mid ++ '"' :: ')' :: ')' :: written) hall
        rw [writtenTail_quotation ha]
        simpa using this
    · have hmem : ')' ∈ ", ".toList := by rw [hmid]; simp
      exact absurd hmem (by decide)

theorem closes_quoted_behind_key {blanks inner rest : List Char} (hi : i = .string)
    (hblank : ∀ d ∈ blanks, isBlank d = true) (hinner : '"' ∉ inner)
    (h : typedTail k c ++ typed = inner ++ '"' :: ')' :: ')' :: rest) :
    Closes i (',' :: (blanks ++ '"' :: (writtenTail c ++ written))) := by
  rcases hc.argument_cases with hplain | ⟨blanks', inner', hblank', -, -, ha⟩
  · have hall : ∀ d ∈ blanks ++ '"' :: writtenArgument c.argument, isPlain d = true := by
      intro d hd
      simp only [List.mem_append, List.mem_cons] at hd
      rcases hd with hd | rfl | hd
      · exact isPlain_of_isBlank (hblank d hd)
      · decide
      · exact hplain d hd
    have := Closes.plain (k := i) written hall
    simpa [writtenTail] using this
  · -- the quote that ends it is the one that starts the copied literal
    rw [typedTail_quotation ha] at h
    obtain ⟨-, hliteral⟩ := append_cons_inj (by decide) hinner h
    obtain ⟨mid, rfl⟩ := close_before_quote hliteral
    have hquote : '"' ∉ ',' :: blanks' := by
      intro hmem
      rcases List.mem_cons.mp hmem with heq | hmem
      · exact absurd heq (by decide)
      · exact absurd (hblank' _ hmem) (by decide)
    have := Closes.quoted (mid ++ '"' :: ')' :: ')' :: written) hi hblank hquote
    rw [writtenTail_quotation ha]
    simpa using this

/-- A call that closes inside a copied key, or behind it, closes there in the written call too. -/
theorem closes_key (h : Closes i (c.key ++ '"' :: (typedTail k c ++ typed))) :
    Closes i (c.key ++ '"' :: (writtenTail c ++ written)) := by
  generalize hcs : c.key ++ '"' :: (typedTail k c ++ typed) = cs at h
  cases h with
  | bare rest =>
    obtain ⟨mid, hmid⟩ := close_before_quote hcs
    rw [hmid]
    exact .bare _
  | @plain value rest hplain =>
    obtain ⟨d, key, hkey⟩ := List.exists_cons_of_ne_nil hc.key_ne_nil
    rw [hkey] at hcs ⊢
    obtain ⟨rfl, htail⟩ := List.cons.inj hcs
    rcases cut_at_close htail with ⟨mid, rfl, hmid⟩ | ⟨mid, rfl⟩
    · exact closes_plain_behind_key hc (fun d hd => hplain d (by simp [hd]))
        (fun d hd => hplain d (by simp [hd])) hmid
    · have := Closes.plain (k := i) (mid ++ '"' :: (writtenTail c ++ written)) hplain
      simpa using this
  | @quoted blanks inner rest hi hblank hinner =>
    obtain ⟨d, key, hkey⟩ := List.exists_cons_of_ne_nil hc.key_ne_nil
    have hunquoted := hc.key_unquoted
    rw [hkey] at hcs hunquoted ⊢
    obtain ⟨rfl, htail⟩ := List.cons.inj hcs
    have hblanks : '"' ∉ blanks := fun hmem => absurd (hblank _ hmem) (by decide)
    obtain ⟨rfl, hmid⟩ := append_cons_inj (fun hmem => hunquoted (by simp [hmem])) hblanks htail
    exact closes_quoted_behind_key hc hi hblank hinner hmid

end Key

/-! ## The same place before and after -/

/-- What follows a place of the rewritten text, and what follows the place that it comes from: a
place between two pieces, or in front of a copied key. -/
inductive Beside (lib : String) (k : Kind) : List Char → List Char → Prop
  | pieces (ps : List (Piece Call)) (fits : ∀ c ∈ finds ps, c.Fits) :
      Beside lib k (render (Call.typed lib k) ps) (render (Call.written k) ps)
  | key (c : Call) (ps : List (Piece Call)) (fits : c.Fits) :
      Beside lib k (c.key ++ '"' :: (typedTail k c ++ render (Call.typed lib k) ps))
        (c.key ++ '"' :: (writtenTail c ++ render (Call.written k) ps))

section Places

variable {lib : String} (hlib : isDottedIdentifier lib.toList = true) {k : Kind}
include hlib

theorem Beside.bare {typed written rest : List Char} (h : Beside lib k typed written)
    (heq : typed = ')' :: ')' :: rest) : ∃ back, written = ')' :: ')' :: back := by
  cases h with
  | pieces ps hps =>
    obtain ⟨qs, rfl, hqs⟩ := eq_kept_cons hlib (by decide) heq
    obtain ⟨rs, rfl, -⟩ := eq_kept_cons hlib (by decide) hqs
    exact ⟨_, rfl⟩
  | key c ps hc =>
    obtain ⟨mid, hmid⟩ := close_before_quote heq
    rw [hmid]
    exact ⟨_, rfl⟩

/-- The next quote of the rewritten text is the next quote of the text, or opens a copied key. -/
theorem next_quote {ps : List (Piece Call)} (hps : ∀ c ∈ finds ps, c.Fits)
    {front rest : List Char} (hfront : '"' ∉ front)
    (h : render (Call.typed lib k) ps = front ++ '"' :: rest) :
    ∃ front' rest', render (Call.written k) ps = front' ++ '"' :: rest' ∧ '"' ∉ front' ∧
      (front ≠ [] → front' ≠ []) ∧ Beside lib k rest rest' := by
  induction ps generalizing front with
  | nil => exact absurd h (by simp)
  | cons p ps ih =>
    cases p with
    | kept d =>
      cases front with
      | nil =>
        obtain ⟨rfl, rfl⟩ := List.cons.inj h
        exact ⟨[], render (Call.written k) ps, rfl, List.not_mem_nil, id, .pieces ps hps⟩
      | cons e front =>
        obtain ⟨rfl, htail⟩ := List.cons.inj h
        obtain ⟨hd, hfront'⟩ : '"' ≠ d ∧ '"' ∉ front := by simpa using hfront
        obtain ⟨u, rest', hu, hquote, -, hbeside⟩ := ih hps hfront' htail
        refine ⟨d :: u, rest', by rw [render_kept, hu]; rfl, ?_, fun _ => by simp, hbeside⟩
        simp [hd, hquote]
    | found c =>
      have hc := hps c (by simp)
      have htyped : typedHead lib k c ++ '"' :: (c.key ++ '"' ::
          (typedTail k c ++ render (Call.typed lib k) ps)) = front ++ '"' :: rest := by
        rw [← h, render_found, Call.typed_eq]
        simp
      obtain ⟨-, rfl⟩ := append_cons_inj (quote_notMem_typedHead hlib hc) hfront htyped
      refine ⟨callHead k c.container, _, ?_, quote_notMem_callHead k hc.dotted, ?_, .key c ps hc⟩
      · rw [render_found, Call.written_eq_head]
        simp
      · simp [callHead]

theorem eq_map_kept_plain {ps : List (Piece Call)} {value rest : List Char}
    (hvalue : ∀ d ∈ value, isPlain d = true)
    (h : render (Call.typed lib k) ps = value ++ ')' :: rest) :
    ∃ qs, ps = value.map .kept ++ .kept ')' :: qs ∧ render (Call.typed lib k) qs = rest := by
  induction value generalizing ps with
  | nil => exact eq_kept_cons hlib (by decide) h
  | cons d value ih =>
    cases ps with
    | nil => exact absurd h (by simp)
    | cons p ps =>
      cases p with
      | kept e =>
        obtain ⟨rfl, htail⟩ := List.cons.inj h
        obtain ⟨qs, rfl, hqs⟩ := ih (fun d hd => hvalue d (List.mem_cons_of_mem _ hd)) htail
        exact ⟨qs, rfl, hqs⟩
      | found c =>
        -- an accessor would open a parenthesis first
        obtain ⟨name, tail, htyped, hname⟩ := typed_paren hlib (k := k) (c := c)
        rw [render_found, htyped, List.append_assoc, List.cons_append] at h
        have open_stop : ∀ cs : List Char, ∀ d, ('(' :: cs).head? = some d → isPlain d = false := by
          intro cs d hd
          obtain rfl : '(' = d := by simpa using hd
          rfl
        have close_stop : ∀ cs : List Char, ∀ d,
            (')' :: cs).head? = some d → isPlain d = false := by
          intro cs d hd
          obtain rfl : ')' = d := by simpa using hd
          rfl
        obtain ⟨-, hparen⟩ := run_append_inj hname (open_stop _) hvalue (close_stop _) h
        exact absurd (List.cons.inj hparen).1 (by decide)

theorem eq_map_kept_blank {ps : List (Piece Call)} {blanks rest : List Char}
    (hblank : ∀ d ∈ blanks, isBlank d = true)
    (h : render (Call.typed lib k) ps = blanks ++ rest) :
    ∃ qs, ps = blanks.map .kept ++ qs ∧ render (Call.typed lib k) qs = rest := by
  induction blanks generalizing ps with
  | nil => exact ⟨ps, rfl, h⟩
  | cons d blanks ih =>
    obtain ⟨qs, rfl, hqs⟩ :=
      eq_kept_cons hlib (isNameChar_of_isBlank (hblank d List.mem_cons_self)) h
    obtain ⟨rs, rfl, hrs⟩ := ih (fun d hd => hblank d (List.mem_cons_of_mem _ hd)) hqs
    exact ⟨rs, rfl, hrs⟩

/-- A call that closes in the rewritten text closes at the same place of the text. -/
theorem Beside.closes {i : Kind} {typed written : List Char} (h : Beside lib k typed written)
    (hcloses : Closes i typed) : Closes i written := by
  cases h with
  | key c ps hc => exact closes_key hc hcloses
  | pieces ps hps =>
    generalize htyped : render (Call.typed lib k) ps = cs at hcloses
    cases hcloses with
    | bare rest =>
      obtain ⟨back, hback⟩ := (Beside.pieces ps hps).bare hlib htyped
      rw [hback]
      exact .bare back
    | @plain value rest hplain =>
      obtain ⟨qs, rfl, hqs⟩ := eq_kept_cons hlib (by decide) htyped
      obtain ⟨rs, rfl, hrs⟩ := eq_map_kept_plain hlib hplain hqs
      obtain ⟨ts, rfl, -⟩ := eq_kept_cons hlib (by decide) hrs
      rw [render_kept, render_append, render_map_kept]
      exact .plain _ hplain
    | @quoted blanks inner rest hi hblank hinner =>
      obtain ⟨qs, rfl, hqs⟩ := eq_kept_cons hlib (by decide) htyped
      obtain ⟨rs, rfl, hrs⟩ := eq_map_kept_blank hlib hblank hqs
      obtain ⟨ts, rfl, hts⟩ := eq_kept_cons hlib (by decide) hrs
      have hfits : ∀ c ∈ finds ts, c.Fits := fun c hc => hps c (by simp [hc])
      obtain ⟨u, rest', hu, hquote, -, hbeside⟩ := next_quote hlib hfits hinner hts
      obtain ⟨back, rfl⟩ := hbeside.bare hlib rfl
      rw [render_kept, render_append, render_map_kept, render_kept, hu]
      exact .quoted back hi hblank hquote

/-! ## Calls of the rewritten text -/

/-- No key is copied that ends in `.get(`, and no default that ends in `.get("`. -/
def Tame (k : Kind) (cs : List Call) : Prop :=
  ∀ c ∈ cs, ¬ ".get(".toList <:+ c.key ∧ ¬ ".get(\"".toList <:+ c.default k

omit hlib in
theorem not_reopens {ps : List (Piece Call)} (htame : Tame k (finds ps)) (front : List Char) :
    ¬ Reopens lib k ps front := by
  intro h
  cases h with
  | @key qs rs c _ _ hps hends =>
    exact (htame c (by simp [hps])).1 hends
  | @default qs rs c a _ _ hps ha hends =>
    have hne : a.value ≠ [] := by
      intro hnil
      rw [hnil] at hends
      exact absurd (List.suffix_nil.mp hends) (by decide)
    have hdefault : c.default k = a.value := by simp [Call.default, ha, hne]
    exact (htame c (by simp [hps])).2 (hdefault ▸ hends)

/-- Where a call stands in the rewritten text, one stands at a kept character of the text itself,
unless a copy has reopened it. -/
theorem stands_or_reopens {ps : List (Piece Call)} (hps : ∀ c ∈ finds ps, c.Fits) {i : Kind}
    {front back : List Char} {d : Call} (heq : render (Call.typed lib k) ps = front ++ back)
    (h : Stands i front back d) :
    (∃ qs e rs c, ps = qs ++ .kept e :: rs ∧
      Stands i (render (Call.written k) qs) (render (Call.written k) (.kept e :: rs)) c) ∨
    Reopens lib k ps front := by
  obtain ⟨hword, container, key, tail, hdotted, hne, hkey, hcloses, rfl⟩ :=
    exists_stands_iff.mp ⟨d, h⟩
  let head := i.wrapper.toList ++ '(' :: (container ++ ".get".toList)
  have hhead : callHead i container = head ++ ['('] := by simp [callHead, head]
  have hcut : render (Call.typed lib k) ps =
      ((front ++ head) ++ ['(']) ++ '"' :: (key ++ '"' :: tail) := by
    rw [heq, hhead]
    simp
  rcases kept_or_copyEnd hlib hps hcut with
    ⟨qs, rs, rfl, hqs, hrs⟩ | ⟨qs, c, rs, cut, hsplit, hend, hqs⟩
  · left
    obtain ⟨qs, rfl, hfront⟩ := eq_append_map_kept (paren_notMem_head i hdotted) hqs
    have hfits : ∀ c ∈ finds rs, c.Fits := fun c hc => hps c (by simp [hc])
    obtain ⟨key', tail', hwritten, hkey', hne', hbeside⟩ := next_quote hlib hfits hkey hrs
    obtain ⟨e, rest, he⟩ : ∃ e rest, head = e :: rest :=
      List.exists_cons_of_ne_nil (by simp [head])
    refine ⟨qs, e, rest.map .kept ++ .kept '(' :: .kept '"' :: rs, ?_⟩
    have hstands : ∃ c, Stands i (render (Call.written k) qs) (render (Call.written k)
        (.kept e :: (rest.map .kept ++ .kept '(' :: .kept '"' :: rs))) c := by
      rw [exists_stands_iff]
      refine ⟨?_, container, key', tail', hdotted, hne' hne, hkey', hbeside.closes hlib hcloses, ?_⟩
      · rw [← joinsWord_render lib, hfront]
        exact hword
      · rw [render_kept, render_append, render_map_kept, render_kept, render_kept, hwritten, hhead,
          he]
        simp
    obtain ⟨c, hc⟩ := hstands
    refine ⟨c, ?_, hc⟩
    change _ ++ head.map Piece.kept ++ _ = _
    rw [he]
    simp
  · right
    rw [List.append_assoc, ← hhead] at hqs
    refine hend.reopens hsplit (quote_notMem_callHead i hdotted) ?_ hqs
    exact ⟨i.wrapper.toList ++ '(' :: container, by simp [callHead]⟩

/-- A call of the rule's own kind stands in the rewritten text only where a copy reopens one. -/
theorem reopens_of_stands_text {cs front back : List Char} {d : Call}
    (heq : (Rule.ofKind lib k).text cs = front ++ back) (h : Stands k front back d) :
    Reopens lib k ((Rule.ofKind lib k).pieces cs) front := by
  have hdecomposes := decomposes_pieces lib k cs
  rcases stands_or_reopens (k := k) hlib hdecomposes.fits heq h with
    ⟨qs, e, rs, c, hps, hstands⟩ | hreopens
  · exact absurd hstands (hdecomposes.kept qs e rs hps c)
  · exact hreopens

variable {cs : List Char} (htame : Tame k (finds ((Rule.ofKind lib k).pieces cs)))
include htame

/-- A rule that copies no key and no default of the dangerous form makes no new calls. -/
theorem hasCall_of_hasCall_text {i : Kind} (h : HasCall i ((Rule.ofKind lib k).text cs)) :
    HasCall i cs := by
  have hdecomposes := decomposes_pieces lib k cs
  obtain ⟨front, back, c, heq, hstands⟩ := h
  rcases stands_or_reopens (k := k) hlib hdecomposes.fits heq hstands with
    ⟨qs, e, rs, c, hps, hstands⟩ | hreopens
  · refine ⟨_, _, c, ?_, hstands⟩
    rw [← render_append, ← hps, hdecomposes.spelled]
  · exact absurd hreopens (not_reopens htame front)

theorem not_hasCall_text : ¬ HasCall k ((Rule.ofKind lib k).text cs) := by
  rintro ⟨front, back, c, heq, hstands⟩
  exact not_reopens htame front (reopens_of_stands_text hlib heq hstands)

end Places

/-- Wherever a rule reads a call in what it has made of a text, the call begins in a key that the
rule copied and that ends in `.get(`, or in a default that it copied and that ends in `.get("`.  If
no key and no default that it copied has one of these endings, it makes no fix in its own output. -/
theorem rematch_inside_copy {lib : String} (hlib : isDottedIdentifier lib.toList = true) (k : Kind)
    (cs : List Char) :
    (∀ front back d, (Rule.ofKind lib k).text cs = front ++ back →
      callAt? k k.forms front.getLast? back = some d →
      Reopens lib k ((Rule.ofKind lib k).pieces cs) front) ∧
    (Tame k (finds ((Rule.ofKind lib k).pieces cs)) →
      (Rule.ofKind lib k).fixes ((Rule.ofKind lib k).text cs) = 0) := by
  constructor
  · intro front back d heq hread
    refine reopens_of_stands_text hlib heq ((callAt?_iff_stands (c := d)).mp ?_)
    rw [lastOr, Option.or_none]
    exact hread
  · intro htame
    exact fixes_eq_zero_iff.mpr (not_hasCall_text hlib htame)

/-- A key that ends in the head of a call, which the quote behind the key then opens. -/
theorem rematch_inside_copy_key :
    isDottedIdentifier "DictUtils".toList = true ∧
    (Rule.ofKind "DictUtils" .int).text "int(a.get(\"int(b.get(\"))x\"))".toList =
      "DictUtils.get_int(a, \"".toList ++ "int(b.get(\", 0)x\"))".toList ∧
    callAt? .int Kind.int.forms (some '"') "int(b.get(\", 0)x\"))".toList =
      some ⟨"b".toList, ", 0)x".toList, none⟩ ∧
    Reopens "DictUtils" .int
      ((Rule.ofKind "DictUtils" .int).pieces "int(a.get(\"int(b.get(\"))x\"))".toList)
      "DictUtils.get_int(a, \"".toList ∧
    Tame .int (finds ((Rule.ofKind "DictUtils" .int).pieces "int(a.get(\"k\", n))".toList)) ∧
    (Rule.ofKind "DictUtils" .int).fixes
      ((Rule.ofKind "DictUtils" .int).text "int(a.get(\"k\", n))".toList) = 0 := by
  have hlib : isDottedIdentifier "DictUtils".toList = true := by decide +kernel
  have htext : (Rule.ofKind "DictUtils" .int).text "int(a.get(\"int(b.get(\"))x\"))".toList =
      "DictUtils.get_int(a, \"".toList ++ "int(b.get(\", 0)x\"))".toList := by decide +kernel
  have hread : callAt? .int Kind.int.forms (some '"') "int(b.get(\", 0)x\"))".toList =
      some ⟨"b".toList, ", 0)x".toList, none⟩ := by decide +kernel
  have htame : Tame .int
      (finds ((Rule.ofKind "DictUtils" .int).pieces "int(a.get(\"k\", n))".toList)) := by
    unfold Tame
    decide +kernel
  refine ⟨hlib, htext, hread, ?_, htame, ?_⟩
  · exact (rematch_inside_copy hlib .int _).1 _ _ _ htext hread
  · exact (rematch_inside_copy hlib .int _).2 htame

end CastGuard.Lookup
