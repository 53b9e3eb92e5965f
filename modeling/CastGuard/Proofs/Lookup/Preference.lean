/-
# `CastGuard.Proofs.Lookup.Preference` — which defaults are read by their preferred form

Each kind of look-up prefers a form of its own for the default and takes any text without
parentheses otherwise.  A rule that knows nothing but such plain texts would do as well, with one
exception.

* Digits, truth values and decimals are plain texts themselves, and they count only where the call
  closes right behind them, which is where a plain text ends.  So for numbers and truth values the
  preference changes nothing, in any text (`value?_preferred`).
* A quoted literal may hold parentheses.  Where a rule for strings reads one that does, the plain
  rule either finds no call or ends it inside the literal.  In a text without such a default the two
  rules agree, and only there (`preference_for_quotations`).

The plain rule reads a call for strings as the rules of the other kinds read theirs, so what follows
the key is a `Closing` of one of these kinds.
-/
import CastGuard.Proofs.Lookup.Occurrence
import CastGuard.Proofs.Lookup.Rematch

namespace CastGuard.Lookup

open CastGuard.Text

/-- The rule of a kind that takes any text without parentheses for a default, and nothing else. -/
def Rule.plainly (lib : String) (k : Kind) : Rule := ⟨k, lib, [.plain]⟩

def Call.Parenless (c : Call) : Prop := ∀ a, c.argument = some a → '(' ∉ a.value ∧ ')' ∉ a.value

instance : DecidablePred Call.Parenless := fun c =>
  inferInstanceAs (Decidable (∀ a ∈ c.argument, '(' ∉ a.value ∧ ')' ∉ a.value))

theorem parenless_iff {cs : List Char} :
    ('(' ∉ cs ∧ ')' ∉ cs) ↔ ∀ d ∈ cs, isPlain d = true := by
  constructor
  · rintro ⟨hopen, hclose⟩ d hd
    have hne : d ≠ '(' ∧ d ≠ ')' := ⟨fun heq => hopen (heq ▸ hd), fun heq => hclose (heq ▸ hd)⟩
    simpa [isPlain] using hne
  · intro h
    exact ⟨fun hmem => absurd (h _ hmem) (by decide), fun hmem => absurd (h _ hmem) (by decide)⟩

/-! ## Numbers and truth values -/

theorem callAt?_congr {forms forms' : List Form}
    (h : ∀ cs, value? forms cs = value? forms' cs) (k : Kind) :
    callAt? k forms = callAt? k forms' := by
  have hargument : argument? forms = argument? forms' := by
    funext cs
    unfold argument?
    split
    · rw [h]
    · rfl
  funext before cs
  rw [callAt?, callAt?, callIn?, callIn?, hargument]

theorem value?_forms {k : Kind} (hk : k ≠ .string) (cs : List Char) :
    value? k.forms cs = value? [.plain] cs := by
  cases k with
  | string => exact absurd rfl hk
  | int => exact value?_preferred (by decide) cs
  | bool => exact value?_preferred (by decide) cs
  | float => exact value?_preferred (by decide) cs

theorem pieces_plainly (lib : String) {k : Kind} (hk : k ≠ .string) (cs : List Char) :
    (Rule.plainly lib k).pieces cs = (Rule.ofKind lib k).pieces cs := by
  have hfind : callAt? k [.plain] = callAt? k k.forms :=
    callAt?_congr (fun cs => (value?_forms hk cs).symm) k
  change Text.pieces (callAt? k [.plain]) (Call.written k) none cs = _
  rw [hfind]
  rfl

/-! ## Strings -/

theorem argument?_plain_eq_some_iff {cs rest : List Char} {a : Option Argument} :
    argument? [.plain] cs = some (a, rest) ↔ Closing .int cs a rest := by
  rw [← argument?_eq_some_iff]
  have hvalue : ∀ cs, value? [.plain] cs = value? Kind.int.forms cs := fun cs =>
    (value?_forms (by decide) cs).symm
  unfold argument?
  split
  · rw [hvalue]
  · rfl

theorem callAt?_plain_eq_some_iff {before : Option Char} {cs : List Char} {c : Call} :
    callAt? .string [.plain] before cs = some c ↔
      joinsWord before = false ∧ Dotted c.container ∧ c.key ≠ [] ∧ '"' ∉ c.key ∧
        ∃ after rest, cs = opening .string c.container c.key ++ after ∧
          Closing .int after c.argument rest := by
  unfold callAt?
  cases hbefore : joinsWord before with
  | true => simp
  | false =>
    simp only [Bool.false_eq_true, if_false, true_and, Option.map_eq_some_iff, Prod.exists,
      callIn?_iff_argument, argument?_plain_eq_some_iff]
    constructor
    · rintro ⟨c', rest, ⟨hdotted, hne, hkey, after, hcs, hclosing⟩, rfl⟩
      exact ⟨hdotted, hne, hkey, after, rest, hcs, hclosing⟩
    · rintro ⟨hdotted, hne, hkey, after, rest, hcs, hclosing⟩
      exact ⟨c, rest, ⟨hdotted, hne, hkey, after, hcs, hclosing⟩, rfl⟩

theorem faithful_callAt?_plain : Faithful (callAt? .string [.plain]) (Call.written .string) := by
  intro before cs c h
  obtain ⟨-, -, -, -, after, rest, rfl, hclosing⟩ := callAt?_plain_eq_some_iff.mp h
  refine ⟨⟨rest, ?_⟩, Call.written_ne_nil _ c⟩
  rw [hclosing.written, Call.written_eq]
  simp

theorem Closing.plainly {cs rest : List Char} {a : Option Argument} (h : Closing .string cs a rest)
    (hparenless : ∀ b, a = some b → '(' ∉ b.value ∧ ')' ∉ b.value) : Closing .int cs a rest := by
  cases h with
  | bare => exact .bare rest
  | quoted _ _ hblank _ =>
    refine .plain rest hblank ?_ (parenless_iff.mp (hparenless _ rfl))
      (fun hk => absurd hk (by decide))
    intro c hc
    obtain rfl : '"' = c := by simpa [quotation] using hc
    rfl
  | plain _ hblank hmaximal hplain _ =>
    exact .plain rest hblank hmaximal hplain fun hk => absurd hk (by decide)

theorem Closing.parenless {cs rest : List Char} {a : Argument} (h : Closing .int cs (some a) rest) :
    '(' ∉ a.value ∧ ')' ∉ a.value := by
  cases h with
  | quoted _ hk => exact absurd hk (by decide)
  | plain _ _ _ hplain => exact parenless_iff.mpr hplain

theorem Closing.exists_string {cs rest : List Char} {a : Option Argument}
    (h : Closing .int cs a rest) :
    ∃ a' rest', Closing .string cs a' rest' := by
  rw [exists_closing_iff]
  cases exists_closing_iff.mp ⟨a, rest, h⟩ with
  | bare rest => exact .bare rest
  | plain rest hplain => exact .plain rest hplain
  | quoted _ hk => exact absurd hk (by decide)

section Strings

variable {before : Option Char} {cs : List Char} {c : Call}

theorem callAt?_plain_of_parenless (h : callAt? .string Kind.string.forms before cs = some c)
    (hc : c.Parenless) : callAt? .string [.plain] before cs = some c := by
  obtain ⟨hword, rest, hspells⟩ := callAt?_eq_some_iff.mp h
  obtain ⟨after, hcs, hclosing⟩ := hspells.closing
  exact callAt?_plain_eq_some_iff.mpr ⟨hword, hspells.dotted, hspells.key_ne_nil,
    hspells.key_unquoted,
    after, rest, hcs, hclosing.plainly hc⟩

theorem callAt?_plain_of_none (h : callAt? .string Kind.string.forms before cs = none) :
    callAt? .string [.plain] before cs = none := by
  rw [Option.eq_none_iff_forall_ne_some] at h ⊢
  intro c hc
  obtain ⟨hword, hdotted, hne, hkey, after, rest, hcs, hclosing⟩ := callAt?_plain_eq_some_iff.mp hc
  obtain ⟨a, rest', hstring⟩ := hclosing.exists_string
  exact h ⟨c.container, c.key, a⟩
    (callAt?_eq_some_iff.mpr ⟨hword, rest', hdotted, hne, hkey, after, hcs, hstring⟩)

theorem parenless_of_callAt?_plain (h : callAt? .string [.plain] before cs = some c) :
    c.Parenless := by
  obtain ⟨-, -, -, -, after, rest, -, hclosing⟩ := callAt?_plain_eq_some_iff.mp h
  intro a ha
  rw [ha] at hclosing
  exact hclosing.parenless

/-- The two rules for strings cut a text alike exactly if the defaults that the preferring one reads
have no parentheses. -/
theorem pieces_plainly_string_iff (lib : String) (cs : List Char) :
    (Rule.plainly lib .string).pieces cs = (Rule.ofKind lib .string).pieces cs ↔
      ∀ c ∈ finds ((Rule.ofKind lib .string).pieces cs), c.Parenless := by
  constructor
  · intro heq c hc
    rw [← heq] at hc
    obtain ⟨front, back, hps⟩ := exists_append_of_mem_finds hc
    exact parenless_of_callAt?_plain
      ((divides_pieces faithful_callAt?_plain none cs).found front c back hps)
  · intro h
    have hdivides := divides_pieces (faithful_callAt? .string) none cs
    -- what the preferring rule cuts is a leftmost division for the plain one
    refine (Divides.eq_pieces faithful_callAt?_plain ⟨hdivides.spelled, ?_, ?_⟩).symm
    · intro front c back hps
      have hc : c ∈ finds ((Rule.ofKind lib .string).pieces cs) := by
        change c ∈ finds
          (Text.pieces (callAt? .string Kind.string.forms) (Call.written .string) none cs)
        rw [hps]
        simp
      exact callAt?_plain_of_parenless (hdivides.found front c back hps) (h c hc)
    · intro front ch back hps
      exact callAt?_plain_of_none (hdivides.kept front ch back hps)

end Strings

/-- For numbers and truth values the plain rule gives the same text and the same number of fixes as
the rule that prefers a form.  For strings a default has no parenthesis unless it is a quoted
literal, and the plain rule cuts a text in the same way, and so gives the same, exactly if no
default there has one. -/
theorem preference_for_quotations (lib : String) (cs : List Char) :
    (∀ k, k ≠ .string → (Rule.plainly lib k).text cs = (Rule.ofKind lib k).text cs ∧
      (Rule.plainly lib k).fixes cs = (Rule.ofKind lib k).fixes cs) ∧
    (∀ c ∈ finds ((Rule.ofKind lib .string).pieces cs), ∀ a, c.argument = some a →
      ('(' ∉ a.value ∧ ')' ∉ a.value) ∨ ∃ inner, '"' ∉ inner ∧ a.value = quotation inner) ∧
    ((Rule.plainly lib .string).pieces cs = (Rule.ofKind lib .string).pieces cs ↔
      ∀ c ∈ finds ((Rule.ofKind lib .string).pieces cs), c.Parenless) ∧
    ((∀ c ∈ finds ((Rule.ofKind lib .string).pieces cs), c.Parenless) →
      (Rule.plainly lib .string).text cs = (Rule.ofKind lib .string).text cs ∧
        (Rule.plainly lib .string).fixes cs = (Rule.ofKind lib .string).fixes cs) := by
  have outcome : ∀ {k : Kind}, (Rule.plainly lib k).pieces cs = (Rule.ofKind lib k).pieces cs →
      (Rule.plainly lib k).text cs = (Rule.ofKind lib k).text cs ∧
        (Rule.plainly lib k).fixes cs = (Rule.ofKind lib k).fixes cs := by
    intro k hpieces
    rw [Rule.text, Rule.text, Rule.fixes, Rule.fixes, hpieces]
    exact ⟨rfl, rfl⟩
  refine ⟨fun k hk => outcome (pieces_plainly lib hk cs), ?_, pieces_plainly_string_iff lib cs,
    fun h => outcome ((pieces_plainly_string_iff lib cs).mpr h)⟩
  intro c hc a ha
  obtain ⟨-, hvalue⟩ := ((decomposes_pieces lib .string cs).fits c hc).argument a ha
  exact hvalue.imp_left parenless_iff.mpr

theorem preference_for_quotations_mood :
    let cs := "x = str(d.get(\"mood\", \"ok\")) + int(e.get(\"n\",   07))".toList
    (∀ c ∈ finds ((Rule.ofKind "DictUtils" .string).pieces cs), c.Parenless) ∧
      (Rule.plainly "DictUtils" .string).text cs =
        "x = DictUtils.get_string(d, \"mood\", \"ok\") + int(e.get(\"n\",   07))".toList ∧
      (Rule.plainly "DictUtils" .int).text cs =
        "x = str(d.get(\"mood\", \"ok\")) + DictUtils.get_int(e, \"n\", 07)".toList := by
  intro cs
  have hparenless : ∀ c ∈ finds ((Rule.ofKind "DictUtils" .string).pieces cs), c.Parenless := by
    decide +kernel
  obtain ⟨hothers, -, -, hstring⟩ := preference_for_quotations "DictUtils" cs
  rw [(hothers .int (by decide)).1, (hstring hparenless).1]
  exact ⟨hparenless, by decide +kernel, by decide +kernel⟩

/-- A parenthesis in a quoted default is read by the preferred form alone. -/
example : let cs := "str(d.get(\"mood\", \":)\"))".toList
    (Rule.ofKind "DictUtils" .string).fixes cs = 1 ∧
      (Rule.plainly "DictUtils" .string).fixes cs = 0 := by
  decide +kernel

end CastGuard.Lookup
