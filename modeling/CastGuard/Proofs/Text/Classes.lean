/-
# `CastGuard.Proofs.Text.Classes` — which characters a name cannot hold

Words, identifiers and dotted names are bounded by what they leave out: blanks, quotes, parentheses
and the punctuation of statements.  Everything later modules say about where a part of a call or a
statement ends comes down to the facts here.

`Dotted` says what a dotted name is, as words with dots between them.  The reader of dotted names
decides it (`Dotted.of_isDotted`, `Dotted.isDotted`).
-/
import CastGuard.Style
import CastGuard.Text.Class
import CastGuard.Text.Word
import CastGuard.Proofs.Text.Runs

namespace CastGuard.Text

/-! ## Punctuation and blanks -/

/-- The characters that calls and statements are punctuated with. -/
def punctuation : List Char := ['(', ')', '"', ',', ':', '=', ' ', '\t', '\r', '\n']

theorem forall_mem_of_all {p : Char → Bool} {b : Bool} {cs : List Char}
    (h : (cs.all fun c => p c == b) = true) : ∀ c ∈ cs, p c = b := by
  intro c hc
  exact eq_of_beq (List.all_eq_true.mp h c hc)

theorem isWord_punctuation : ∀ c ∈ punctuation, isWord c = false := forall_mem_of_all (by decide)

theorem continuesIdentifier_punctuation : ∀ c ∈ punctuation, continuesIdentifier c = false :=
  forall_mem_of_all (by decide)

theorem isWord_dot : isWord '.' = false := by decide

def rangeCodes (rs : List (Nat × Nat)) : List Nat :=
  rs.flatMap fun r => List.range' r.1 (r.2 + 1 - r.1)

theorem mem_rangeCodes {rs : List (Nat × Nat)} {n : Nat} (h : inRanges rs n = true) :
    n ∈ rangeCodes rs := by
  induction rs with
  | nil => exact absurd h Bool.false_ne_true
  | cons r rs ih =>
    obtain ⟨lo, hi⟩ := r
    rw [rangeCodes, List.flatMap_cons, List.mem_append]
    rw [inRanges] at h
    by_cases hlo : n < lo
    · simp [hlo] at h
    · by_cases hhi : n ≤ hi
      · exact .inl (List.mem_range'_1.mpr ⟨by omega, by omega⟩)
      · rw [if_neg hlo, if_neg hhi] at h
        exact .inr (ih h)

theorem isWord_of_isBlank {c : Char} (h : isBlank c = true) : isWord c = false := by
  have none_word : ∀ n ∈ rangeCodes blankRanges, isWord (Char.ofNat n) = false := by decide +kernel
  have := none_word c.toNat (mem_rangeCodes h)
  rwa [Char.ofNat_toNat] at this

theorem continuesIdentifier_of_isBlank {c : Char} (h : isBlank c = true) :
    continuesIdentifier c = false := by
  have none_continues : ∀ n ∈ rangeCodes blankRanges,
    continuesIdentifier (Char.ofNat n) = false := by
    decide +kernel
  have := none_continues c.toNat (mem_rangeCodes h)
  rwa [Char.ofNat_toNat] at this

/-! ## Identifiers -/

theorem continuesIdentifier_of_starts {c : Char} (h : startsIdentifier c = true) :
    continuesIdentifier c = true := by
  simp only [startsIdentifier, Bool.or_eq_true] at h
  simp only [continuesIdentifier, Bool.or_eq_true]
  exact .inl h

theorem isIdentifier_ne_nil {cs : List Char} (h : isIdentifier cs = true) : cs ≠ [] := by
  rintro rfl
  exact absurd h (by decide)

theorem continues_of_mem_identifier {cs : List Char} (h : isIdentifier cs = true) :
    ∀ c ∈ cs, continuesIdentifier c = true := by
  cases cs with
  | nil => exact fun _ hc => absurd hc List.not_mem_nil
  | cons d cs =>
    obtain ⟨hd, hcs⟩ := (Bool.and_eq_true _ _).mp h
    intro c hc
    rcases List.mem_cons.mp hc with rfl | hc
    · exact continuesIdentifier_of_starts hd
    · exact List.all_eq_true.mp hcs c hc

theorem notMem_identifier {cs : List Char} (h : isIdentifier cs = true) {c : Char}
    (hc : c ∈ punctuation) : c ∉ cs := by
  intro hmem
  have hcont := continues_of_mem_identifier h c hmem
  rw [continuesIdentifier_punctuation c hc] at hcont
  exact absurd hcont Bool.false_ne_true

/-! ## Dotted names -/

/-- Words with single dots between them. -/
def Dotted (cs : List Char) : Prop :=
  ∃ words : List (List Char), words ≠ [] ∧
    (∀ w ∈ words, w ≠ [] ∧ ∀ c ∈ w, isWord c = true) ∧ joined '.' words = cs

theorem Dotted.ne_nil {cs : List Char} (h : Dotted cs) : cs ≠ [] := by
  obtain ⟨words, hne, hwords, rfl⟩ := h
  cases words with
  | nil => exact absurd rfl hne
  | cons w ws =>
    cases ws with
    | nil => exact (hwords w List.mem_cons_self).1
    | cons v ws => simp [joined]

theorem Dotted.isDottedChar {cs : List Char} (h : Dotted cs) :
    ∀ c ∈ cs, isDottedChar c = true := by
  obtain ⟨words, -, hwords, rfl⟩ := h
  induction words with
  | nil => exact fun _ hc => absurd hc List.not_mem_nil
  | cons w ws ih =>
    have hw : ∀ c ∈ w, Text.isDottedChar c = true := by
      intro c hc
      simp [Text.isDottedChar, (hwords w List.mem_cons_self).2 c hc]
    cases ws with
    | nil => exact hw
    | cons v ws =>
      intro c hc
      rw [joined, List.mem_append, List.mem_cons] at hc
      rcases hc with hc | rfl | hc
      · exact hw c hc
      · rfl
      · exact ih (fun u hu => hwords u (List.mem_cons_of_mem _ hu)) c hc

theorem Dotted.head_isWord {cs : List Char} (h : Dotted cs) :
    ∀ c, cs.head? = some c → isWord c = true := by
  obtain ⟨words, hne, hwords, rfl⟩ := h
  intro c hc
  cases words with
  | nil => exact absurd rfl hne
  | cons w ws =>
    obtain ⟨hw, hchars⟩ := hwords w List.mem_cons_self
    obtain ⟨d, w, rfl⟩ := List.exists_cons_of_ne_nil hw
    obtain rfl : d = c := by cases ws <;> simpa [joined] using hc
    exact hchars d List.mem_cons_self

theorem Dotted.cons_word {c : Char} {cs : List Char} (hc : isWord c = true) (h : Dotted cs) :
    Dotted (c :: cs) := by
  obtain ⟨words, hne, hwords, rfl⟩ := h
  cases words with
  | nil => exact absurd rfl hne
  | cons w ws =>
    refine ⟨(c :: w) :: ws, by simp, ?_, ?_⟩
    · intro u hu
      rcases List.mem_cons.mp hu with rfl | hu
      · refine ⟨by simp, fun d hd => ?_⟩
        rcases List.mem_cons.mp hd with rfl | hd
        · exact hc
        · exact (hwords w List.mem_cons_self).2 d hd
      · exact hwords u (List.mem_cons_of_mem _ hu)
    · cases ws <;> rfl

theorem Dotted.cons_cons_dot {c : Char} {cs : List Char} (hc : isWord c = true) (h : Dotted cs) :
    Dotted (c :: '.' :: cs) := by
  obtain ⟨words, hne, hwords, rfl⟩ := h
  refine ⟨[c] :: words, by simp, ?_, ?_⟩
  · intro w hw
    rcases List.mem_cons.mp hw with rfl | hw
    · exact ⟨by simp, by simpa using hc⟩
    · exact hwords w hw
  · rw [joined_cons hne]
    rfl

theorem Dotted.of_isDotted {cs : List Char} (h : isDotted cs = true) : Dotted cs := by
  fun_induction isDotted cs with
  | case1 => exact absurd h Bool.false_ne_true
  | case2 c => exact ⟨[[c]], by simp, by simpa using h, rfl⟩
  | case3 c d cs ihSkip ih =>
    obtain ⟨hc, hcs⟩ := (Bool.and_eq_true _ _).mp h
    split at hcs
    · next hd =>
      obtain rfl : d = '.' := by simpa using hd
      exact .cons_cons_dot hc (ihSkip hcs)
    · exact .cons_word hc (ih hcs)

/-- A word that a dotted name starts with, and what its reader goes on with. -/
theorem isDotted_word_append {w rest : List Char} (hne : w ≠ []) (hw : ∀ c ∈ w, isWord c = true) :
    isDotted (w ++ '.' :: rest) = isDotted rest := by
  induction w with
  | nil => exact absurd rfl hne
  | cons c w ih =>
    have hc := hw c List.mem_cons_self
    cases w with
    | nil => simp [isDotted, hc]
    | cons d w =>
      have hd := hw d (by simp)
      have hdot : (d == '.') = false := by
        rw [beq_eq_false_iff_ne]
        rintro rfl
        exact absurd hd (by rw [isWord_dot]; exact Bool.false_ne_true)
      have := ih (by simp) fun e he => hw e (List.mem_cons_of_mem _ he)
      simpa [isDotted, hc, hdot] using this

theorem isDotted_word {w : List Char} (hne : w ≠ []) (hw : ∀ c ∈ w, isWord c = true) :
    isDotted w = true := by
  induction w with
  | nil => exact absurd rfl hne
  | cons c w ih =>
    have hc := hw c List.mem_cons_self
    cases w with
    | nil => simpa [isDotted] using hc
    | cons d w =>
      have := ih (by simp) fun e he => hw e (List.mem_cons_of_mem _ he)
      by_cases hdot : d = '.'
      · subst hdot
        exact absurd (hw '.' (by simp)) (by rw [isWord_dot]; exact Bool.false_ne_true)
      · simpa [isDotted, hc, hdot] using this

theorem Dotted.isDotted {cs : List Char} (h : Dotted cs) : isDotted cs = true := by
  obtain ⟨words, hne, hwords, rfl⟩ := h
  induction words with
  | nil => exact absurd rfl hne
  | cons w ws ih =>
    obtain ⟨hw, hchars⟩ := hwords w List.mem_cons_self
    cases ws with
    | nil => exact isDotted_word hw hchars
    | cons v ws =>
      rw [joined, isDotted_word_append hw hchars]
      exact ih (by simp) fun u hu => hwords u (List.mem_cons_of_mem _ hu)

/-! ## Dotted identifiers -/

/-- Characters that a dotted identifier is made of. -/
def isNameChar (c : Char) : Bool := continuesIdentifier c || c == '.'

theorem isNameChar_punctuation : ∀ c ∈ punctuation, isNameChar c = false :=
  forall_mem_of_all (by decide)

theorem isNameChar_of_isBlank {c : Char} (h : isBlank c = true) : isNameChar c = false := by
  unfold isNameChar
  rw [continuesIdentifier_of_isBlank h, Bool.false_or, beq_eq_false_iff_ne]
  rintro rfl
  exact absurd h (by decide)

theorem dottedIdentifier_ne_nil {cs : List Char} (h : isDottedIdentifier cs = true) : cs ≠ [] := by
  rintro rfl
  exact absurd h (by decide)

theorem isNameChar_of_mem {cs : List Char} (h : isDottedIdentifier cs = true) :
    ∀ c ∈ cs, isNameChar c = true := by
  intro c hc
  unfold isNameChar
  rcases mem_parts_of_mem '.' hc with rfl | ⟨part, hpart, hmem⟩
  · simp
  · have hidentifier := List.all_eq_true.mp h part hpart
    rw [continues_of_mem_identifier hidentifier c hmem]
    rfl

theorem notMem_dottedIdentifier {cs : List Char} (h : isDottedIdentifier cs = true) {c : Char}
    (hc : c ∈ punctuation) : c ∉ cs := by
  intro hmem
  have hname := isNameChar_of_mem h c hmem
  rw [isNameChar_punctuation c hc] at hname
  exact absurd hname Bool.false_ne_true

end CastGuard.Text
