/-
# `CastGuard.Proofs.Text.Lowercase` — lower-casing a text and its parts

Lower-casing goes character by character, but for the capital sigma, which has a form of its own at
the end of a word.  So a part of a text is lower-cased in its surroundings: what becomes of `cs`
between `before` and `after` is `lowerAmid before cs after`, and a whole text is put together of
such parts (`lowerAmid_append`).  `lowerEach` lower-cases each character on its own.

The surroundings matter to capital sigmas only, and only as far as they decide which of them end a
word (`lowerAmid_congr`).  That depends on the nearest character on either side that is not ignored
for case.  `nearestCase` says of it whether it is a cased letter; where a text has no such
character, what stands behind the text decides (`nearestCase_append`).  Hence the two ways in which
a sigma can be independent of the surroundings of its text, `Inside` and `Settled`.

A capital and its small letter are both cased and not ignored, so lower-casing does not change what
is nearest (`nearestCase_lowerEach`).  That is a fact about the tables, and it is checked run by
run.
-/
import CastGuard.Text.Literal
import CastGuard.Text.Lowercase

namespace CastGuard.Text

/-! ## The nearest character that is not ignored -/

/-- Whether the first character of a text that is not ignored for case is a cased letter, if there
is one. -/
def nearestCase (cs : List Char) : Option Bool :=
  (cs.find? fun c => !isCaseIgnorable c).map isCased

@[simp]
theorem nearestCase_nil : nearestCase [] = none := rfl

theorem nearestCase_append (cs rest : List Char) :
    nearestCase (cs ++ rest) = (nearestCase cs).or (nearestCase rest) := by
  unfold nearestCase
  rw [List.find?_append]
  cases cs.find? fun c => !isCaseIgnorable c <;> rfl

theorem nearestCase_eq_none_iff {cs : List Char} :
    nearestCase cs = none ↔ ∀ c ∈ cs, isCaseIgnorable c = true := by
  simp [nearestCase]

theorem meetsCased_iff {cs : List Char} : meetsCased cs = true ↔ nearestCase cs = some true := by
  induction cs with
  | nil => simp [meetsCased]
  | cons c cs ih =>
    cases hc : isCaseIgnorable c with
    | true =>
      have hdrop : meetsCased (c :: cs) = meetsCased cs := by simp [meetsCased, hc]
      have hfind : nearestCase (c :: cs) = nearestCase cs := by simp [nearestCase, hc]
      rw [hdrop, hfind, ih]
    | false => simp [meetsCased, nearestCase, hc]

theorem endsWord_iff {before after : List Char} :
    endsWord before after = true ↔
      nearestCase before = some true ∧ nearestCase after ≠ some true := by
  unfold endsWord
  rw [Bool.and_eq_true, meetsCased_iff, Bool.not_eq_true', ← Bool.not_eq_true, meetsCased_iff]

/-- A sigma between `before`, nearest character first, and `after` ends no word, whatever surrounds
the text of the two. -/
def Inside (before after : List Char) : Prop :=
  nearestCase before = some false ∨ nearestCase after = some true

/-- Whether a sigma between `before` and `after` ends a word does not depend on what surrounds the
text of the two. -/
def Settled (before after : List Char) : Prop :=
  Inside before after ∨ nearestCase before = some true ∧ nearestCase after = some false

instance (before after : List Char) : Decidable (Inside before after) :=
  inferInstanceAs (Decidable (_ ∨ _))

theorem Inside.endsWord {before after : List Char} (h : Inside before after)
    (front back : List Char) :
    endsWord (before ++ front) (after ++ back) = false := by
  rw [← Bool.not_eq_true, endsWord_iff, nearestCase_append, nearestCase_append]
  rintro ⟨hbefore, hafter⟩
  rcases h with h | h
  · rw [h] at hbefore
    exact absurd hbefore (by simp)
  · rw [h] at hafter
    exact hafter rfl

theorem Settled.endsWord {before after : List Char} (h : Settled before after)
    (front back : List Char) :
    endsWord (before ++ front) (after ++ back) = endsWord before after := by
  rcases h with h | ⟨hbefore, hafter⟩
  · have hnone := h.endsWord [] []
    rw [List.append_nil, List.append_nil] at hnone
    rw [h.endsWord front back, hnone]
  · have hends : ∀ front back, Text.endsWord (before ++ front) (after ++ back) = true := by
      intro front back
      rw [endsWord_iff, nearestCase_append, nearestCase_append, hbefore, hafter]
      simp
    have hends' := hends [] []
    rw [List.append_nil, List.append_nil] at hends'
    rw [hends front back, hends']

/-! ## One character -/

section Character

variable {before after : List Char} {c : Char}

theorem lowerAt_of_ne (h : c ≠ 'Σ') : lowerAt before c after = lower [c] := by
  have hne : (c == 'Σ') = false := beq_eq_false_iff_ne.mpr h
  simp [lower, lowerAfter, lowerAt, hne]

theorem lowerAt_sigma (before after : List Char) :
    lowerAt before 'Σ' after = [if endsWord before after then 'ς' else 'σ'] := rfl

theorem lower_sigma : lower ['Σ'] = ['σ'] := by decide

theorem lowerAt_of_not_endsWord (h : c = 'Σ' → endsWord before after = false) :
    lowerAt before c after = lower [c] := by
  by_cases hc : c = 'Σ'
  · rw [hc, lowerAt_sigma, h hc, lower_sigma]
    rfl
  · exact lowerAt_of_ne hc

theorem lowerAt_of_endsWord (h : endsWord before after = true) :
    lowerAt before 'Σ' after = ['ς'] := by
  rw [lowerAt_sigma, h]
  rfl

theorem length_lowerAt (before : List Char) (c : Char) (after : List Char) :
    (lowerAt before c after).length = (lower [c]).length := by
  by_cases hc : c = 'Σ'
  · rw [hc, lowerAt_sigma, lower_sigma]
    rfl
  · rw [lowerAt_of_ne hc]

theorem lower_dotted : lower ['İ'] = ['i', '\u0307'] := by decide

theorem lower_single (hsigma : c ≠ 'Σ') (hdotted : c ≠ 'İ') : lower [c] = [lowerChar c] := by
  have hs : (c == 'Σ') = false := beq_eq_false_iff_ne.mpr hsigma
  have hd : (c == 'İ') = false := beq_eq_false_iff_ne.mpr hdotted
  simp [lower, lowerAfter, lowerAt, hs, hd]

theorem lower_eq_sigma_of_mem (h : 'σ' ∈ lower [c]) : lower [c] = ['σ'] := by
  by_cases hsigma : c = 'Σ'
  · rw [hsigma, lower_sigma]
  by_cases hdotted : c = 'İ'
  · rw [hdotted, lower_dotted] at h
    exact absurd h (by decide)
  · rw [lower_single hsigma hdotted] at h ⊢
    rw [List.mem_singleton.mp h]

end Character

/-! ## The tables -/

section Tables

variable {rs : List (Nat × Nat)} {lo hi n : Nat}

/-- All code points from `lo` to `hi` lie in one of the ranges. -/
def covers : List (Nat × Nat) → Nat → Nat → Bool
  | [], _, _ => false
  | r :: rs, lo, hi => Nat.ble r.1 lo && (Nat.ble hi r.2 || covers rs lo hi)

/-- No code point from `lo` to `hi` lies in any of the ranges, as far as the walk of a table goes.
-/
def clears : List (Nat × Nat) → Nat → Nat → Bool
  | [], _, _ => true
  | r :: rs, lo, hi => Nat.blt hi r.1 || (Nat.blt r.2 lo && clears rs lo hi)

theorem inRanges_of_covers (h : covers rs lo hi = true) (hlo : lo ≤ n) (hhi : n ≤ hi) :
    inRanges rs n = true := by
  induction rs with
  | nil => exact absurd h Bool.false_ne_true
  | cons r rs ih =>
    simp only [covers, Bool.and_eq_true, Bool.or_eq_true, Nat.ble_eq] at h
    obtain ⟨hfirst, hrest⟩ := h
    rw [inRanges, if_neg (by omega)]
    split
    · rfl
    · next hout => exact ih (hrest.resolve_left (by omega))

theorem not_inRanges_of_clears (h : clears rs lo hi = true) (hlo : lo ≤ n) (hhi : n ≤ hi) :
    inRanges rs n = false := by
  induction rs with
  | nil => rfl
  | cons r rs ih =>
    simp only [clears, Bool.or_eq_true, Bool.and_eq_true, Nat.blt_eq] at h
    rw [inRanges]
    split
    · rfl
    · next hfirst =>
      obtain ⟨hlast, hrest⟩ := h.resolve_left (by omega)
      rw [if_neg (by omega)]
      exact ih hrest

/-- All code points from `lo` to `hi` are characters that are cased and not ignored for case. -/
def allCased (lo hi : Nat) : Bool :=
  (Nat.blt hi 0xd800 || (Nat.blt 0xdfff lo && Nat.blt hi 0x110000)) && covers casedRanges lo hi &&
    clears caseIgnorableRanges lo hi

theorem nearestCase_of_allCased (h : allCased lo hi = true) (hlo : lo ≤ n) (hhi : n ≤ hi) :
    nearestCase [Char.ofNat n] = some true := by
  simp only [allCased, Bool.and_eq_true, Bool.or_eq_true, Nat.blt_eq] at h
  obtain ⟨⟨hvalid, hcovers⟩, hclears⟩ := h
  have hchar : n.isValidChar := by
    unfold Nat.isValidChar
    omega
  have hcode : (Char.ofNat n).toNat = n := by
    rw [Char.ofNat, dif_pos hchar]
    rfl
  have hcased : isCased (Char.ofNat n) = true := by
    rw [isCased, hcode]
    exact inRanges_of_covers hcovers hlo hhi
  have hshown : isCaseIgnorable (Char.ofNat n) = false := by
    rw [isCaseIgnorable, hcode]
    exact not_inRanges_of_clears hclears hlo hhi
  simp [nearestCase, hcased, hshown]

def CaseRun.codes (r : CaseRun) : List Nat :=
  List.range' r.first ((r.last - r.first) / r.step + 1) r.step

def shifted (shift : Int) (n : Nat) : Nat := ((n : Int) + shift).toNat

/-- The capitals and the small letters of a run are cased and not ignored for case. -/
def CaseRun.shows (r : CaseRun) : Bool :=
  (allCased r.first r.last || r.codes.all fun n => allCased n n) &&
    allCased (shifted r.shift r.first) (shifted r.shift r.last)

theorem shows_of_mem_caseRuns : ∀ r ∈ caseRuns, r.shows = true :=
  List.all_eq_true.mp (by decide +kernel)

theorem CaseRun.holds.mem_codes {r : CaseRun} (h : r.holds n = true) : n ∈ r.codes := by
  simp only [CaseRun.holds, Bool.and_eq_true, decide_eq_true_eq, beq_iff_eq] at h
  obtain ⟨⟨hfirst, hlast⟩, hstep⟩ := h
  refine List.mem_range'.mpr ⟨(n - r.first) / r.step, ?_, ?_⟩
  · exact Nat.lt_succ_of_le (Nat.div_le_div_right (by omega))
  · rw [Nat.mul_div_cancel' (Nat.dvd_of_mod_eq_zero hstep)]
    omega

theorem CaseRun.shows.of_holds {r : CaseRun} (h : r.shows = true) (hn : r.holds n = true) :
    nearestCase [Char.ofNat n] = some true ∧
      nearestCase [Char.ofNat (shifted r.shift n)] = some true := by
  simp only [CaseRun.shows, Bool.and_eq_true, Bool.or_eq_true] at h
  obtain ⟨hcapital, hsmall⟩ := h
  have hmem := CaseRun.holds.mem_codes hn
  simp only [CaseRun.holds, Bool.and_eq_true, decide_eq_true_eq] at hn
  obtain ⟨⟨hfirst, hlast⟩, -⟩ := hn
  constructor
  · rcases hcapital with hall | heach
    · exact nearestCase_of_allCased hall hfirst hlast
    · exact nearestCase_of_allCased (List.all_eq_true.mp heach n hmem) (Nat.le_refl n)
        (Nat.le_refl n)
  · refine nearestCase_of_allCased hsmall ?_ ?_
    all_goals
      unfold shifted
      omega

theorem lowerCode_cases (n : Nat) (runs : List CaseRun) :
    lowerCode n runs = n ∨ ∃ r ∈ runs, r.holds n = true ∧ lowerCode n runs = shifted r.shift n := by
  induction runs with
  | nil => exact .inl rfl
  | cons r runs ih =>
    rw [lowerCode]
    split
    · exact .inl rfl
    split
    · next hholds => exact .inr ⟨r, List.mem_cons_self, hholds, rfl⟩
    · rcases ih with hsame | ⟨r', hr', hholds, heq⟩
      · exact .inl hsame
      · exact .inr ⟨r', List.mem_cons_of_mem _ hr', hholds, heq⟩

end Tables

/-- A character without a small letter stays; otherwise both are cased and not ignored for case. -/
theorem lowerChar_cases (c : Char) :
    lowerChar c = c ∨ nearestCase [c] = some true ∧ nearestCase [lowerChar c] = some true := by
  unfold lowerChar
  rcases lowerCode_cases c.toNat caseRuns with hsame | ⟨r, hr, hholds, heq⟩
  · left
    rw [hsame, Char.ofNat_toNat]
  · right
    have hshows := CaseRun.shows.of_holds (shows_of_mem_caseRuns r hr) hholds
    rwa [Char.ofNat_toNat, ← heq] at hshows

/-! ## Each character on its own -/

def lowerEach (cs : List Char) : List Char := cs.flatMap fun c => lower [c]

@[simp]
theorem lowerEach_nil : lowerEach [] = [] := rfl

theorem lowerEach_cons (c : Char) (cs : List Char) :
    lowerEach (c :: cs) = lower [c] ++ lowerEach cs :=
  rfl

theorem lowerEach_append (cs rest : List Char) :
    lowerEach (cs ++ rest) = lowerEach cs ++ lowerEach rest := List.flatMap_append

theorem nearestCase_lower (c : Char) :
    nearestCase (lower [c]) = nearestCase [c] ∧ nearestCase (lower [c]).reverse =
      nearestCase [c] := by
  by_cases hsigma : c = 'Σ'
  · rw [hsigma, lower_sigma]
    decide
  by_cases hdotted : c = 'İ'
  · rw [hdotted, lower_dotted]
    decide
  rw [lower_single hsigma hdotted, List.reverse_singleton, and_self]
  rcases lowerChar_cases c with hsame | ⟨hcapital, hsmall⟩
  · rw [hsame]
  · rw [hcapital, hsmall]

theorem nearestCase_lowerEach (cs : List Char) : nearestCase (lowerEach cs) = nearestCase cs := by
  induction cs with
  | nil => rfl
  | cons c cs ih =>
    rw [lowerEach_cons, nearestCase_append, (nearestCase_lower c).1, ih, ← nearestCase_append,
      List.singleton_append]

theorem nearestCase_reverse_lowerEach (cs : List Char) :
    nearestCase (lowerEach cs).reverse = nearestCase cs.reverse := by
  induction cs with
  | nil => rfl
  | cons c cs ih =>
    rw [lowerEach_cons, List.reverse_append, nearestCase_append, ih, (nearestCase_lower c).2,
      ← nearestCase_append, List.reverse_cons]

theorem backslash_mem_lowerEach {cs : List Char} : '\\' ∈ lowerEach cs ↔ '\\' ∈ cs := by
  have only : ∀ c, '\\' ∈ lower [c] → c = '\\' := by
    intro c hmem
    by_cases hsigma : c = 'Σ'
    · rw [hsigma, lower_sigma] at hmem
      exact absurd hmem (by decide)
    by_cases hdotted : c = 'İ'
    · rw [hdotted, lower_dotted] at hmem
      exact absurd hmem (by decide)
    rw [lower_single hsigma hdotted, List.mem_singleton] at hmem
    rcases lowerChar_cases c with hsame | ⟨-, hsmall⟩
    · rw [hmem, hsame]
    · rw [← hmem] at hsmall
      exact absurd hsmall (by decide)
  unfold lowerEach
  rw [List.mem_flatMap]
  constructor
  · rintro ⟨c, hc, hmem⟩
    exact only c hmem ▸ hc
  · intro hmem
    exact ⟨_, hmem, by decide⟩

/-- A small sigma in the result comes of a sigma, which divides the text as it divides the result.
-/
theorem exists_sigma_of_lowerEach {cs front back : List Char}
    (h : lowerEach cs = front ++ 'σ' :: back) :
    ∃ xs c ys, cs = xs ++ c :: ys ∧ lower [c] = ['σ'] ∧
      lowerEach xs = front ∧ lowerEach ys = back := by
  induction cs generalizing front with
  | nil => exact absurd h (by simp)
  | cons c cs ih =>
    rw [lowerEach_cons] at h
    rcases List.append_eq_append_iff.mp h with ⟨more, rfl, hrest⟩ | ⟨more, hc, hrest⟩
    · obtain ⟨xs, d, ys, rfl, hd, rfl, rfl⟩ := ih hrest
      exact ⟨c :: xs, d, ys, rfl, hd, rfl, rfl⟩
    · cases more with
      | nil =>
        obtain ⟨xs, d, ys, rfl, hd, hxs, rfl⟩ := @ih [] hrest.symm
        rw [List.append_nil] at hc
        exact ⟨c :: xs, d, ys, rfl, hd, by rw [lowerEach_cons, hxs, hc, List.append_nil], rfl⟩
      | cons d more =>
        obtain ⟨rfl, hback⟩ := List.cons.inj hrest
        have hsigma := lower_eq_sigma_of_mem (by rw [hc]; simp)
        obtain ⟨rfl, rfl⟩ : front = [] ∧ more = [] := by
          rw [hsigma] at hc
          cases front with
          | nil => exact ⟨rfl, by simpa using hc.symm⟩
          | cons => simp at hc
        exact ⟨[], c, cs, rfl, hsigma, rfl, hback.symm⟩

/-! ## Parts of a text -/

/-- The lower-case spelling of a part of a text that stands behind `before`, given nearest character
first, and in front of `after`. -/
def lowerAmid (before : List Char) : List Char → List Char → List Char
  | [], _ => []
  | c :: cs, after => lowerAt before c (cs ++ after) ++ lowerAmid (c :: before) cs after

theorem lowerAfter_append (before cs rest : List Char) :
    lowerAfter before (cs ++ rest) =
      lowerAmid before cs rest ++ lowerAfter (cs.reverse ++ before) rest := by
  induction cs generalizing before with
  | nil => rfl
  | cons c cs ih => simp [lowerAfter, lowerAmid, ih]

theorem lower_eq_lowerAmid (cs : List Char) : lower cs = lowerAmid [] cs [] := by
  have h := lowerAfter_append [] cs []
  rwa [List.append_nil, lowerAfter, List.append_nil] at h

theorem lowerAmid_append (before cs rest after : List Char) :
    lowerAmid before (cs ++ rest) after =
      lowerAmid before cs (rest ++ after) ++ lowerAmid (cs.reverse ++ before) rest after := by
  induction cs generalizing before with
  | nil => rfl
  | cons c cs ih => simp [lowerAmid, ih]

theorem lowerAmid_isInfix (front cs back : List Char) :
    lowerAmid front.reverse cs back <:+: lower (front ++ cs ++ back) := by
  rw [lower_eq_lowerAmid, lowerAmid_append, lowerAmid_append, List.append_nil, List.append_nil]
  exact List.infix_append _ _ _

theorem length_lowerAmid (before cs after : List Char) :
    (lowerAmid before cs after).length = (lowerEach cs).length := by
  induction cs generalizing before with
  | nil => rfl
  | cons c cs ih =>
    rw [lowerAmid, lowerEach_cons, List.length_append, List.length_append, ih, length_lowerAt]

theorem lowerAmid_congr {cs before before' after after' : List Char}
    (h : ∀ front back, cs = front ++ 'Σ' :: back →
      endsWord (front.reverse ++ before) (back ++ after) =
        endsWord (front.reverse ++ before') (back ++ after')) :
    lowerAmid before cs after = lowerAmid before' cs after' := by
  induction cs generalizing before before' with
  | nil => rfl
  | cons c cs ih =>
    have hc : lowerAt before c (cs ++ after) = lowerAt before' c (cs ++ after') := by
      by_cases hsigma : c = 'Σ'
      · have hends := h [] cs (by rw [hsigma]; rfl)
        rw [List.reverse_nil, List.nil_append, List.nil_append] at hends
        rw [hsigma, lowerAt_sigma, lowerAt_sigma, hends]
      · rw [lowerAt_of_ne hsigma, lowerAt_of_ne hsigma]
    have hcs : lowerAmid (c :: before) cs after = lowerAmid (c :: before') cs after' := by
      refine ih fun front back hsplit => ?_
      have hends := h (c :: front) back (by rw [hsplit]; rfl)
      simpa using hends
    rw [lowerAmid, lowerAmid, hc, hcs]

theorem lowerAmid_eq_lowerEach {cs before after : List Char}
    (h : ∀ front back, cs = front ++ 'Σ' :: back →
      endsWord (front.reverse ++ before) (back ++ after) = false) :
    lowerAmid before cs after = lowerEach cs := by
  induction cs generalizing before with
  | nil => rfl
  | cons c cs ih =>
    have hc : lowerAt before c (cs ++ after) = lower [c] := by
      refine lowerAt_of_not_endsWord fun hsigma => ?_
      exact h [] cs (by rw [hsigma]; rfl)
    have hcs : lowerAmid (c :: before) cs after = lowerEach cs := by
      refine ih fun front back hsplit => ?_
      have hends := h (c :: front) back (by rw [hsplit]; rfl)
      simpa using hends
    rw [lowerAmid, lowerEach_cons, hc, hcs]

theorem lowerAmid_of_notMem {cs : List Char} (h : 'Σ' ∉ cs) (before after : List Char) :
    lowerAmid before cs after = lowerEach cs := by
  refine lowerAmid_eq_lowerEach fun front back hsplit => ?_
  exact absurd (by rw [hsplit]; simp) h

/-- Where of two texts that are alike but for one character one becomes a part of what the other
becomes, that character becomes the same in both. -/
theorem lowerAt_eq_of_isInfix {front back before before' after after' : List Char} {c c' : Char}
    (hlength : (lower [c]).length = (lower [c']).length)
    (h : lowerAmid before (front ++ c :: back) after <:+: lowerAmid before'
      (front ++ c' :: back) after') :
    lowerAt (front.reverse ++ before) c (back ++ after) =
      lowerAt (front.reverse ++ before') c' (back ++ after') := by
  have hwhole : (lowerAmid before (front ++ c :: back) after).length =
      (lowerAmid before' (front ++ c' :: back) after').length := by
    rw [length_lowerAmid, length_lowerAmid, lowerEach_append, lowerEach_append, lowerEach_cons,
      lowerEach_cons]
    simp only [List.length_append, hlength]
  have heq := h.eq_of_length hwhole
  rw [lowerAmid_append, lowerAmid_append, lowerAmid, lowerAmid] at heq
  have hfront : (lowerAmid before front (c :: back ++ after)).length =
      (lowerAmid before' front (c' :: back ++ after')).length := by
    rw [length_lowerAmid, length_lowerAmid]
  obtain ⟨-, hrest⟩ := List.append_inj heq hfront
  refine (List.append_inj hrest ?_).1
  rw [length_lowerAt, length_lowerAt, hlength]

/-- A text of ignored characters holds no capital sigma, and no letter `a` comes of it. -/
theorem notMem_of_nearestCase_none {cs : List Char} (h : nearestCase cs = none) :
    'Σ' ∉ cs ∧ 'a' ∉ lowerEach cs := by
  have hlower := (nearestCase_lowerEach cs).trans h
  rw [nearestCase_eq_none_iff] at h hlower
  exact ⟨fun hmem => absurd (h _ hmem) (by decide), fun hmem => absurd (hlower _ hmem) (by decide)⟩

end CastGuard.Text
