/-
# `CastGuard.Proofs.Lookup.Grammar` — what a converted look-up is

The grammar of a call, said without the reader.  Behind the wrapper come the container, the key and
one of three closings:

    ))                   no default
    , "…"))              a quoted default, for strings, when one stands there
    , …))                any default without parentheses otherwise

`Closing` has one constructor for each.  A closing is read in the context of the text that follows:
whether a quoted default stands behind the blanks depends on where the next quote is and on what
follows it, so the constructor for plain defaults has to exclude it.

`callIn?_eq_some_iff` says that the reader finds exactly the calls of the grammar.  Every part ends
at the first character that cannot belong to it, and that is why the grammar is unambiguous though
the reader never goes back.
-/
import CastGuard.Lookup.Rule
import CastGuard.Proofs.Text.Classes

namespace CastGuard.Lookup

open CastGuard.Text

/-! ## The grammar -/

def quotation (inner : List Char) : List Char := '"' :: (inner ++ ['"'])

/-- A double-quoted literal stands at the front of a text, and the call closes right behind it. -/
def ClosedQuotation (cs : List Char) : Prop :=
  ∃ inner rest, '"' ∉ inner ∧ cs = quotation inner ++ ')' :: ')' :: rest

/-- How a call goes on behind its key: with a default or none, two parentheses and `rest`. -/
inductive Closing (k : Kind) : List Char → Option Argument → List Char → Prop
  | bare (rest : List Char) : Closing k (')' :: ')' :: rest) none rest
  | quoted {blanks inner : List Char} (rest : List Char) (kind : k = .string)
      (blank : ∀ c ∈ blanks, isBlank c = true) (unquoted : '"' ∉ inner) :
      Closing k (',' :: (blanks ++ (quotation inner ++ ')' :: ')' :: rest)))
        (some ⟨blanks, quotation inner⟩) rest
  | plain {blanks value : List Char} (rest : List Char)
      (blank : ∀ c ∈ blanks, isBlank c = true)
      (maximal : ∀ c, value.head? = some c → isBlank c = false)
      (plain : ∀ c ∈ value, isPlain c = true)
      (unquoted : k = .string → ¬ ClosedQuotation (value ++ ')' :: ')' :: rest)) :
      Closing k (',' :: (blanks ++ (value ++ ')' :: ')' :: rest))) (some ⟨blanks, value⟩) rest

def opening (k : Kind) (container key : List Char) : List Char :=
  k.wrapper.toList ++ '(' :: (container ++ (".get(\"".toList ++ (key ++ ['"'])))

/-- The text `cs` is the call `c`, spelled out, and then `rest`. -/
structure Spells (k : Kind) (cs : List Char) (c : Call) (rest : List Char) : Prop where
  dotted : Dotted c.container
  key_ne_nil : c.key ≠ []
  key_unquoted : '"' ∉ c.key
  closing : ∃ after, cs = opening k c.container c.key ++ after ∧ Closing k after c.argument rest

theorem Closing.written {k : Kind} {cs rest : List Char} {a : Option Argument}
    (h : Closing k cs a rest) : cs = writtenArgument a ++ ')' :: ')' :: rest := by
  cases h with
  | bare => rfl
  | quoted => simp [writtenArgument, Argument.written]
  | plain => simp [writtenArgument, Argument.written]

theorem Call.written_eq (k : Kind) (c : Call) :
    c.written k = opening k c.container c.key ++ (writtenArgument c.argument ++ [')', ')']) := by
  simp [Call.written, opening]

theorem Spells.written {k : Kind} {cs rest : List Char} {c : Call} (h : Spells k cs c rest) :
    cs = c.written k ++ rest := by
  obtain ⟨after, rfl, hclosing⟩ := h.closing
  rw [hclosing.written, Call.written_eq]
  simp

/-! ## Reading the default -/

theorem close?_eq_some_iff {cs rest : List Char} :
    close? cs = some rest ↔ cs = ')' :: ')' :: rest := after?_eq_some_iff

theorem quotedLiteral?_eq_some_iff {cs v rest : List Char} :
    quotedLiteral? cs = some (v, rest) ↔
      ∃ inner, '"' ∉ inner ∧ v = quotation inner ∧ cs = quotation inner ++ rest := by
  constructor
  · intro h
    unfold quotedLiteral? at h
    split at h
    · next cs =>
      split at h
      · next q r hdrop =>
        obtain ⟨rfl, rfl⟩ : _ ∧ r = rest := by simpa using h
        have hq : q = '"' := by
          have := head?_dropWhile_false (c := q) (by rw [hdrop]; rfl)
          simpa using this
        refine ⟨cs.takeWhile (· != '"'), ?_, by simp [quotation, hq], ?_⟩
        · intro hmem
          have := List.all_eq_true.mp List.all_takeWhile _ hmem
          simp at this
        · have := List.takeWhile_append_dropWhile (p := (· != '"')) (l := cs)
          rw [hdrop, hq] at this
          simp [quotation, this]
      · exact absurd h (by simp)
    · exact absurd h (by simp)
  · rintro ⟨inner, hinner, rfl, rfl⟩
    have inside : ∀ c ∈ inner, (c != '"') = true := fun c hc =>
      bne_iff_ne.mpr fun hcq => hinner (hcq ▸ hc)
    have stop : ∀ c, ('"' :: rest).head? = some c → (c != '"') = false := by simp
    have htake := takeWhile_append_stop inside stop
    have hdrop := dropWhile_append_stop inside stop
    simp only [quotation, List.cons_append, List.append_assoc, List.nil_append, quotedLiteral?,
      htake, hdrop]

theorem Form.eq_append_of_read? {f : Form} {cs v rest : List Char}
    (h : f.read? cs = some (v, rest)) : cs = v ++ rest := by
  cases f with
  | quoted =>
    obtain ⟨inner, -, rfl, rfl⟩ := quotedLiteral?_eq_some_iff.mp h
    rfl
  | digits =>
    obtain ⟨-, rfl, rfl⟩ := run?_eq_some_iff.mp h
    exact List.takeWhile_append_dropWhile.symm
  | truth =>
    obtain h | ⟨-, h⟩ := Option.or_eq_some_iff.mp h
    all_goals
      obtain ⟨r, hr, heq⟩ := Option.map_eq_some_iff.mp h
      obtain ⟨rfl, rfl⟩ := Prod.mk.inj heq
      exact after?_eq_some_iff.mp hr
  | decimals =>
    obtain ⟨-, rfl, rfl⟩ := run?_eq_some_iff.mp h
    exact List.takeWhile_append_dropWhile.symm
  | plain =>
    obtain ⟨rfl, rfl⟩ : cs.takeWhile isPlain = v ∧ cs.dropWhile isPlain = rest := by
      simpa [Form.read?] using h
    exact List.takeWhile_append_dropWhile.symm

theorem isPlain_of_isWordDigit {c : Char} (h : isWordDigit c = true) : isPlain c = true := by
  have not_paren : ∀ d ∈ ['(', ')'], isWordDigit d = false := forall_mem_of_all (by decide)
  have hc : c ∉ ['(', ')'] := fun hmem => by
    rw [not_paren c hmem] at h
    exact absurd h Bool.false_ne_true
  simpa [isPlain] using hc

theorem Form.isPlain_of_read? {f : Form} (hf : f ≠ .quoted) {cs v rest : List Char}
    (h : f.read? cs = some (v, rest)) : ∀ c ∈ v, isPlain c = true := by
  intro c hc
  cases f with
  | quoted => exact absurd rfl hf
  | digits =>
    obtain ⟨-, rfl, -⟩ := run?_eq_some_iff.mp h
    exact isPlain_of_isWordDigit (List.all_eq_true.mp List.all_takeWhile c hc)
  | truth =>
    obtain h | ⟨-, h⟩ := Option.or_eq_some_iff.mp h
    all_goals
      obtain ⟨r, -, heq⟩ := Option.map_eq_some_iff.mp h
      obtain ⟨rfl, rfl⟩ := Prod.mk.inj heq
      exact forall_mem_of_all (by decide) c hc
  | decimals =>
    obtain ⟨-, rfl, -⟩ := run?_eq_some_iff.mp h
    have := List.all_eq_true.mp List.all_takeWhile c hc
    rcases (Bool.or_eq_true _ _).mp this with hdigit | hdot
    · exact isPlain_of_isWordDigit hdigit
    · obtain rfl : c = '.' := by simpa using hdot
      rfl
  | plain =>
    obtain ⟨rfl, -⟩ : cs.takeWhile isPlain = v ∧ cs.dropWhile isPlain = rest := by
      simpa [Form.read?] using h
    exact List.all_eq_true.mp List.all_takeWhile c hc

theorem value?_cons (f : Form) (fs : List Form) (cs : List Char) :
    value? (f :: fs) cs =
      ((f.read? cs).bind fun (v, rest) => (close? rest).map (v, ·)).or (value? fs cs) := by
  unfold value?
  rw [List.findSome?_cons]
  cases (f.read? cs).bind fun (v, rest) => (close? rest).map (v, ·) <;> rfl

theorem isPlain_close {rest : List Char} :
    ∀ c, (')' :: ')' :: rest).head? = some c → isPlain c = false := by
  intro c hc
  obtain rfl : ')' = c := by simpa using hc
  rfl

theorem value?_plain_eq_some_iff {cs v rest : List Char} :
    value? [.plain] cs = some (v, rest) ↔
      (∀ c ∈ v, isPlain c = true) ∧ cs = v ++ ')' :: ')' :: rest := by
  rw [value?_cons]
  simp only [Form.read?, Option.bind_some, value?, List.findSome?_nil, Option.or_none,
    Option.map_eq_some_iff, Prod.mk.injEq, close?_eq_some_iff]
  constructor
  · rintro ⟨r, hr, rfl, rfl⟩
    refine ⟨fun c hc => List.all_eq_true.mp List.all_takeWhile c hc, ?_⟩
    rw [← hr]
    exact List.takeWhile_append_dropWhile.symm
  · rintro ⟨hplain, rfl⟩
    exact ⟨rest, dropWhile_append_stop hplain isPlain_close,
      takeWhile_append_stop hplain isPlain_close, rfl⟩

/-- A preferred form without parentheses ends where the plain one does, so preferring it changes
nothing. -/
theorem value?_preferred {f : Form} (hf : f ≠ .quoted) (cs : List Char) :
    value? [f, .plain] cs = value? [.plain] cs := by
  rw [value?_cons]
  cases h : (f.read? cs).bind fun (v, rest) => (close? rest).map (v, ·) with
  | none => rfl
  | some found =>
    obtain ⟨⟨v, r⟩, hread, hclose⟩ := Option.bind_eq_some_iff.mp h
    obtain ⟨rest, hrest, rfl⟩ := Option.map_eq_some_iff.mp hclose
    have hplain := Form.isPlain_of_read? hf hread
    have hcs := Form.eq_append_of_read? hread
    rw [close?_eq_some_iff.mp hrest] at hcs
    exact (value?_plain_eq_some_iff.mpr ⟨hplain, hcs⟩).symm

theorem value?_string_eq_some_iff {cs v rest : List Char} :
    value? [.quoted, .plain] cs = some (v, rest) ↔
      (∃ inner, '"' ∉ inner ∧ v = quotation inner ∧ cs = quotation inner ++ ')' :: ')' :: rest) ∨
        ¬ ClosedQuotation cs ∧ (∀ c ∈ v, isPlain c = true) ∧ cs = v ++ ')' :: ')' :: rest := by
  rw [value?_cons, Option.or_eq_some_iff, value?_plain_eq_some_iff]
  have quoted_iff : ∀ {w r : List Char},
      (Form.quoted.read? cs).bind (fun (v, rest) => (close? rest).map (v, ·)) = some (w, r) ↔
        ∃ inner, '"' ∉ inner ∧ w = quotation inner ∧
          cs = quotation inner ++ ')' :: ')' :: r := by
    intro w r
    rw [Option.bind_eq_some_iff]
    constructor
    · rintro ⟨⟨v', r'⟩, hread, hclose⟩
      obtain ⟨r'', hr, heq⟩ := Option.map_eq_some_iff.mp hclose
      obtain ⟨rfl, rfl⟩ := Prod.mk.inj heq
      obtain ⟨inner, hinner, hv, hcs⟩ := quotedLiteral?_eq_some_iff.mp hread
      exact ⟨inner, hinner, hv, by rw [hcs, close?_eq_some_iff.mp hr]⟩
    · rintro ⟨inner, hinner, rfl, hcs⟩
      exact ⟨(quotation inner, ')' :: ')' :: r),
        quotedLiteral?_eq_some_iff.mpr ⟨inner, hinner, rfl, hcs⟩,
        Option.map_eq_some_iff.mpr ⟨r, close?_eq_some_iff.mpr rfl, rfl⟩⟩
  have none_iff : (Form.quoted.read? cs).bind (fun (v, rest) => (close? rest).map (v, ·)) = none ↔
      ¬ ClosedQuotation cs := by
    rw [Option.eq_none_iff_forall_ne_some]
    constructor
    · rintro h ⟨inner, r, hinner, hcs⟩
      exact h _ (quoted_iff.mpr ⟨inner, hinner, rfl, hcs⟩)
    · intro h found heq
      obtain ⟨inner, hinner, -, hcs⟩ := quoted_iff.mp heq
      exact h ⟨inner, found.2, hinner, hcs⟩
  rw [quoted_iff, none_iff]

theorem value?_eq_some_iff {k : Kind} {cs v rest : List Char} :
    value? k.forms cs = some (v, rest) ↔
      (k = .string ∧
        ∃ inner, '"' ∉ inner ∧ v = quotation inner ∧ cs = quotation inner ++ ')' :: ')' :: rest) ∨
      (k = .string → ¬ ClosedQuotation cs) ∧ (∀ c ∈ v, isPlain c = true) ∧
        cs = v ++ ')' :: ')' :: rest := by
  cases k with
  | string => simp [Kind.forms, value?_string_eq_some_iff]
  | int => simp [Kind.forms, value?_preferred, value?_plain_eq_some_iff]
  | bool => simp [Kind.forms, value?_preferred, value?_plain_eq_some_iff]
  | float => simp [Kind.forms, value?_preferred, value?_plain_eq_some_iff]

theorem argument?_eq_some_iff {k : Kind} {cs rest : List Char} {a : Option Argument} :
    argument? k.forms cs = some (a, rest) ↔ Closing k cs a rest := by
  constructor
  · intro h
    unfold argument? at h
    split at h
    · next cs =>
      obtain ⟨⟨v, r⟩, hvalue, heq⟩ := Option.map_eq_some_iff.mp h
      obtain ⟨rfl, rfl⟩ := Prod.mk.inj heq
      have hblank : ∀ c ∈ cs.takeWhile isBlank, isBlank c = true :=
        List.all_eq_true.mp List.all_takeWhile
      have hcs := (List.takeWhile_append_dropWhile (p := isBlank) (l := cs)).symm
      rcases value?_eq_some_iff.mp hvalue with ⟨hk, inner, hinner, rfl, hr⟩ | ⟨hk, hplain, hr⟩
      · rw [hr] at hcs
        have := Closing.quoted r hk hblank hinner
        rwa [← hcs] at this
      · have hstart : ∀ c, v.head? = some c → isBlank c = false := by
          intro c hc
          have hhead : (cs.dropWhile isBlank).head? = some c := by
            rw [hr, List.head?_append, hc]
            rfl
          exact head?_dropWhile_false hhead
        rw [hr] at hcs hk
        have := Closing.plain r hblank hstart hplain hk
        rwa [← hcs] at this
    · obtain ⟨r, hr, heq⟩ := Option.map_eq_some_iff.mp h
      obtain ⟨rfl, rfl⟩ := Prod.mk.inj heq
      rw [close?_eq_some_iff.mp hr]
      exact .bare r
  · intro h
    cases h with
    | bare => rfl
    | @quoted blanks inner _ hk hblank hinner =>
      have stop : ∀ c, (quotation inner ++ ')' :: ')' :: rest).head? = some c →
          isBlank c = false := by
        intro c hc
        obtain rfl : '"' = c := by simpa [quotation] using hc
        rfl
      simp only [argument?, takeWhile_append_stop hblank stop, dropWhile_append_stop hblank stop]
      rw [value?_eq_some_iff.mpr (.inl ⟨hk, inner, hinner, rfl, rfl⟩)]
      rfl
    | @plain blanks value _ hblank hstart hplain hk =>
      have stop : ∀ c, (value ++ ')' :: ')' :: rest).head? = some c → isBlank c = false := by
        intro c hc
        cases value with
        | nil =>
          obtain rfl : ')' = c := by simpa using hc
          rfl
        | cons d value => exact hstart c hc
      simp only [argument?, takeWhile_append_stop hblank stop, dropWhile_append_stop hblank stop]
      rw [value?_eq_some_iff.mpr (.inr ⟨hk, hplain, rfl⟩)]
      rfl

/-! ## Reading the container and the key -/

theorem isDottedChar_paren (rest : List Char) :
    ∀ c, ('(' :: rest).head? = some c → isDottedChar c = false := by
  intro c hc
  obtain rfl : '(' = c := by simpa using hc
  decide

theorem container?_eq_some_iff {cs name rest : List Char} :
    container? cs = some (name, rest) ↔ Dotted name ∧ cs = name ++ (".get(".toList ++ rest) := by
  constructor
  · intro h
    unfold container? at h
    split at h
    · next found r hbefore hdrop =>
      split at h
      · next hdotted =>
        obtain ⟨rfl, rfl⟩ : found = name ∧ r = rest := by simpa using h
        refine ⟨.of_isDotted hdotted, ?_⟩
        have hcs := List.takeWhile_append_dropWhile (p := isDottedChar) (l := cs)
        rw [before?_eq_some_iff.mp hbefore, hdrop] at hcs
        rw [← hcs, List.append_assoc]
        rfl
      · exact absurd h (by simp)
    · exact absurd h (by simp)
  · rintro ⟨hname, rfl⟩
    have inside : ∀ c ∈ name ++ ".get".toList, isDottedChar c = true := by
      intro c hc
      rcases List.mem_append.mp hc with hc | hc
      · exact hname.isDottedChar c hc
      · exact forall_mem_of_all (by decide) c hc
    have hsplit : name ++ (".get(".toList ++ rest) = (name ++ ".get".toList) ++ '(' :: rest := by
      simp
    rw [hsplit]
    simp only [container?, takeWhile_append_stop inside (isDottedChar_paren rest),
      dropWhile_append_stop inside (isDottedChar_paren rest), before?_eq_some_iff.mpr rfl,
      hname.isDotted, if_true]

theorem key?_eq_some_iff {cs key rest : List Char} :
    key? cs = some (key, rest) ↔ key ≠ [] ∧ '"' ∉ key ∧ cs = '"' :: (key ++ '"' :: rest) := by
  constructor
  · intro h
    unfold key? at h
    split at h
    · next cs =>
      split at h
      · next c ks q r htake hdrop =>
        obtain ⟨rfl, rfl⟩ : c :: ks = key ∧ r = rest := by simpa using h
        have hq : q = '"' := by
          have := head?_dropWhile_false (c := q) (by rw [hdrop]; rfl)
          simpa using this
        have hcs := List.takeWhile_append_dropWhile (p := (· != '"')) (l := cs)
        rw [htake, hdrop, hq] at hcs
        refine ⟨by simp, ?_, by rw [hcs]⟩
        intro hmem
        rw [← htake] at hmem
        have := List.all_eq_true.mp List.all_takeWhile _ hmem
        simp at this
      · exact absurd h (by simp)
    · exact absurd h (by simp)
  · rintro ⟨hne, hkey, rfl⟩
    have inside : ∀ c ∈ key, (c != '"') = true := fun c hc =>
      bne_iff_ne.mpr fun hcq => hkey (hcq ▸ hc)
    have stop : ∀ c, ('"' :: rest).head? = some c → (c != '"') = false := by simp
    cases key with
    | nil => exact absurd rfl hne
    | cons c ks =>
      simp only [key?, takeWhile_append_stop inside stop, dropWhile_append_stop inside stop]

/-! ## Reading the call -/

/-- Up to the quote behind the key, a call is read alike whatever forms its default may have. -/
theorem callIn?_iff_argument {k : Kind} {forms : List Form} {cs rest : List Char} {c : Call} :
    callIn? k forms cs = some (c, rest) ↔
      Dotted c.container ∧ c.key ≠ [] ∧ '"' ∉ c.key ∧
        ∃ after, cs = opening k c.container c.key ++ after ∧
          argument? forms after = some (c.argument, rest) := by
  simp only [callIn?, Option.bind_eq_bind, Option.bind_eq_some_iff, Option.pure_def,
    Option.some.injEq]
  constructor
  · rintro ⟨r₁, h₁, ⟨container, r₂⟩, h₂, ⟨key, r₃⟩, h₃, ⟨a, r₄⟩, h₄, heq⟩
    obtain ⟨rfl, rfl⟩ := Prod.mk.inj heq
    obtain ⟨hdotted, rfl⟩ := container?_eq_some_iff.mp h₂
    obtain ⟨hne, hkey, rfl⟩ := key?_eq_some_iff.mp h₃
    obtain rfl := after?_eq_some_iff.mp h₁
    refine ⟨hdotted, hne, hkey, r₃, ?_, h₄⟩
    simp [opening]
  · rintro ⟨hdotted, hne, hkey, after, rfl, hargument⟩
    refine ⟨c.container ++ (".get(\"".toList ++ (c.key ++ '"' :: after)), ?_,
      (c.container, '"' :: (c.key ++ '"' :: after)), ?_, (c.key, after), ?_,
      (c.argument, rest), hargument, rfl⟩
    · rw [after?_eq_some_iff]
      simp [opening]
    · rw [container?_eq_some_iff]
      exact ⟨hdotted, rfl⟩
    · rw [key?_eq_some_iff]
      exact ⟨hne, hkey, rfl⟩

theorem callIn?_eq_some_iff {k : Kind} {cs rest : List Char} {c : Call} :
    callIn? k k.forms cs = some (c, rest) ↔ Spells k cs c rest := by
  rw [callIn?_iff_argument]
  constructor
  · rintro ⟨hdotted, hne, hkey, after, hcs, hargument⟩
    exact ⟨hdotted, hne, hkey, after, hcs, argument?_eq_some_iff.mp hargument⟩
  · rintro ⟨hdotted, hne, hkey, after, hcs, hclosing⟩
    exact ⟨hdotted, hne, hkey, after, hcs, argument?_eq_some_iff.mpr hclosing⟩

theorem callAt?_eq_some_iff {k : Kind} {before : Option Char} {cs : List Char} {c : Call} :
    callAt? k k.forms before cs = some c ↔
      joinsWord before = false ∧ ∃ rest, Spells k cs c rest := by
  unfold callAt?
  cases hb : joinsWord before with
  | true => simp
  | false =>
    simp only [Bool.false_eq_true, if_false, true_and, Option.map_eq_some_iff]
    constructor
    · rintro ⟨⟨c', rest⟩, h, rfl⟩
      exact ⟨rest, callIn?_eq_some_iff.mp h⟩
    · rintro ⟨rest, h⟩
      exact ⟨(c, rest), callIn?_eq_some_iff.mpr h, rfl⟩

end CastGuard.Lookup
