/-
# `CastGuard.Proofs.Selection.Exclusion` — which occurrences of an excluded text are noticed

A path is left out if it contains an excluded text, whatever the case of the letters of either.  For
this both are lower-cased, each as a whole.  A capital sigma in them may then get another form in
the path than it has in the excluded text, where it stands in other surroundings, and the occurrence
is missed: `core/ΛΟΓΟΣ.gd` is not left out on account of `ΛΟΓΟΣ` (`excluded_word_slips_through`).

Nothing else goes wrong.  `excludes_occurrences_iff` says which texts are noticed wherever they
occur:

* a text written as it stands, if for each of its capital sigmas it is settled by the text itself
  whether it ends a word;
* a text in any spelling of its letters, if no sigma in it, capital or small, could end a word;
* every text without a capital sigma, in any spelling in a path without one.

For the first two the converse holds as well: of a text that is not like this, some path is not left
out by a selection that excludes the text and nothing else.
-/
import CastGuard.Selection
import CastGuard.Proofs.Text.Lowercase

namespace CastGuard

open CastGuard.Text

namespace Text

theorem occursIn_iff {part cs : List Char} : occursIn part cs = true ↔ part <:+: cs := by
  have starts : ∀ cs, (after? part cs).isSome = true ↔ part <+: cs := by
    intro cs
    rw [Option.isSome_iff_exists]
    constructor
    · rintro ⟨rest, h⟩
      exact ⟨rest, (after?_eq_some_iff.mp h).symm⟩
    · rintro ⟨rest, rfl⟩
      exact ⟨rest, after?_append part rest⟩
  induction cs with
  | nil => rw [occursIn, List.isEmpty_iff, List.infix_nil]
  | cons c cs ih =>
    rw [occursIn, Bool.or_eq_true, starts, List.infix_cons_iff]
    exact or_congr_right ih

/-- Some spelling of `part`, up to the case of its letters, stands in the text. -/
def OccursUpToCase (part cs : List Char) : Prop :=
  ∃ spelling, lowerEach spelling = lowerEach part ∧ spelling <:+: cs

/-- For each capital sigma of a text it is settled by the text whether it ends a word. -/
def CapitalsSettled (cs : List Char) : Prop :=
  ∀ front back, cs = front ++ 'Σ' :: back → Settled front.reverse back

/-- No sigma of a text, capital or small, could end a word, were it a capital. -/
def SigmasInside (cs : List Char) : Prop :=
  ∀ front c back, cs = front ++ c :: back → lower [c] = ['σ'] → Inside front.reverse back

theorem forall_split_iff {cs : List Char} {p : List Char → Char → List Char → Prop} :
    (∀ front c back, cs = front ++ c :: back → p front c back) ↔
      ∀ i, ∀ h : i < cs.length, p (cs.take i) cs[i] (cs.drop (i + 1)) := by
  constructor
  · intro h i hi
    refine h _ _ _ ?_
    rw [← List.drop_eq_getElem_cons hi, List.take_append_drop]
  · rintro h front c back rfl
    have hi : front.length < (front ++ c :: back).length := by simp
    have hp := h front.length hi
    have hdrop : (front ++ c :: back).drop (front.length + 1) = back := by
      rw [List.drop_append, List.drop_eq_nil_of_le (Nat.le_succ _)]
      simp
    rwa [List.take_left, List.getElem_append_right (Nat.le_refl _), hdrop,
      show (c :: back)[front.length - front.length] = c by simp] at hp

instance (cs : List Char) : Decidable (SigmasInside cs) :=
  decidable_of_iff' _ forall_split_iff

theorem backslash_notMem {cs spelling : List Char} (h : lowerEach spelling = lowerEach cs)
    (hcs : '\\' ∉ cs) : '\\' ∉ spelling := by
  rwa [← backslash_mem_lowerEach, h, backslash_mem_lowerEach]

/-! ## Surroundings that make no difference -/

theorem CapitalsSettled.lowerAmid_eq {cs : List Char} (h : CapitalsSettled cs)
    (before after : List Char) :
    lowerAmid before cs after = lower cs := by
  rw [lower_eq_lowerAmid]
  refine lowerAmid_congr fun front back hsplit => ?_
  have hsettled := h front back hsplit
  rw [hsettled.endsWord, hsettled.endsWord]

theorem SigmasInside.lowerAmid_eq {cs spelling : List Char} (h : SigmasInside cs)
    (hspelling : lowerEach spelling = lowerEach cs) (before after : List Char) :
    lowerAmid before spelling after = lowerEach cs := by
  rw [← hspelling]
  refine lowerAmid_eq_lowerEach fun front back hsplit => ?_
  rw [hsplit, lowerEach_append, lowerEach_cons, lower_sigma, List.singleton_append] at hspelling
  obtain ⟨xs, c, ys, hcs, hc, hxs, hys⟩ := exists_sigma_of_lowerEach hspelling.symm
  have hinside : Inside front.reverse back := by
    unfold Inside
    rw [← nearestCase_reverse_lowerEach, ← nearestCase_lowerEach back, ← hxs, ← hys,
      nearestCase_reverse_lowerEach, nearestCase_lowerEach]
    exact h xs c ys hcs hc
  exact hinside.endsWord before after

theorem SigmasInside.lower_eq {cs : List Char} (h : SigmasInside cs) : lower cs = lowerEach cs := by
  rw [lower_eq_lowerAmid]
  exact h.lowerAmid_eq rfl [] []

theorem lower_of_notMem {cs : List Char} (h : 'Σ' ∉ cs) : lower cs = lowerEach cs := by
  rw [lower_eq_lowerAmid]
  exact lowerAmid_of_notMem h [] []

/-! ## Surroundings that make a difference -/

section Missed

variable {front back : List Char} {c : Char}

/-- A sigma that only ignored characters precede ends no word in its text, but it does behind a
letter. -/
theorem not_isInfix_behind_letter (hfront : nearestCase front.reverse = none)
    (hback : nearestCase back ≠ some true) (hc : lower [c] = ['σ']) :
    ¬ lower (front ++ c :: back) <:+: lower ('A' :: (front ++ 'Σ' :: back)) := by
  have hignored : nearestCase front = none := by
    rw [nearestCase_eq_none_iff] at hfront ⊢
    simpa using hfront
  obtain ⟨hcapital, ha⟩ := notMem_of_nearestCase_none hignored
  have hends : lowerAt (front.reverse ++ ['A']) 'Σ' back = ['ς'] := by
    refine lowerAt_of_endsWord (endsWord_iff.mpr ⟨?_, hback⟩)
    rw [nearestCase_append, hfront]
    decide
  have hstays : lowerAt front.reverse c back = ['σ'] := by
    rw [← hc]
    refine lowerAt_of_not_endsWord fun _ => ?_
    rw [← Bool.not_eq_true, endsWord_iff, hfront]
    simp
  have hpath : lower ('A' :: (front ++ 'Σ' :: back)) =
      'a' :: lowerAmid ['A'] (front ++ 'Σ' :: back) [] := lower_eq_lowerAmid _
  rw [lower_eq_lowerAmid, hpath, List.infix_cons_iff]
  rintro (hstarts | hstands)
  · -- what comes first is an ignored character or the sigma
    rw [lowerAmid_append, lowerAmid_of_notMem hcapital, lowerAmid, List.append_nil, List.append_nil,
      hstays] at hstarts
    cases hlower : lowerEach front with
    | nil =>
      rw [hlower] at hstarts
      exact absurd (List.cons_prefix_cons.mp hstarts).1 (by decide)
    | cons d ds =>
      rw [hlower] at hstarts ha
      exact ha (List.mem_cons.mpr (.inl (List.cons_prefix_cons.mp hstarts).1.symm))
  · have hsame := lowerAt_eq_of_isInfix (by rw [hc, lower_sigma]) hstands
    rw [List.append_nil, List.append_nil, hends, hstays] at hsame
    exact absurd hsame (by decide)

/-- A sigma that only ignored characters follow may end a word in its text, but it does not in front
of a letter. -/
theorem not_isInfix_before_letter (hfront : nearestCase front.reverse = some true)
    (hback : nearestCase back = none) :
    ¬ lower (front ++ 'Σ' :: back) <:+: lower (front ++ 'Σ' :: back ++ ['a']) := by
  obtain ⟨hcapital, ha⟩ := notMem_of_nearestCase_none hback
  have hends : lowerAt front.reverse 'Σ' back = ['ς'] :=
    lowerAt_of_endsWord (endsWord_iff.mpr ⟨hfront, by rw [hback]; simp⟩)
  have hstays : lowerAt front.reverse 'Σ' (back ++ ['a']) = ['σ'] := by
    rw [← lower_sigma]
    refine lowerAt_of_not_endsWord fun _ => ?_
    rw [← Bool.not_eq_true, endsWord_iff, nearestCase_append back, hback]
    exact fun h => h.2 (by decide)
  have hpath : lower (front ++ 'Σ' :: back ++ ['a']) =
      lowerAmid [] (front ++ 'Σ' :: back) ['a'] ++ ['a'] := by
    rw [lower_eq_lowerAmid, lowerAmid_append]
    rfl
  rw [lower_eq_lowerAmid, hpath, List.infix_concat_iff]
  rintro (hsuffix | hstands)
  · -- what comes last is an ignored character or the sigma
    rw [lowerAmid_append, lowerAmid, lowerAmid_of_notMem hcapital] at hsuffix
    simp only [List.append_nil, hends] at hsuffix
    rcases List.suffix_concat_iff.mp hsuffix with hnil | ⟨init, hinit, -⟩
    · exact absurd hnil (by simp)
    rcases List.eq_nil_or_concat (lowerEach back) with hlower | ⟨ds, d, hlower⟩
    · rw [hlower] at hinit
      exact absurd (List.append_inj' hinit rfl).2 (by decide)
    · rw [hlower, List.concat_eq_append, ← List.append_assoc, ← List.append_assoc] at hinit
      obtain rfl : d = 'a' := by simpa using (List.append_inj' hinit rfl).2
      exact ha (by rw [hlower, List.concat_eq_append]; simp)
  · have hsame := lowerAt_eq_of_isInfix rfl hstands
    rw [List.append_nil, List.append_nil, hends, hstays] at hsame
    exact absurd hsame (by decide)

/-- In the place of a sigma that may end a word, behind a letter, the other one has another form. -/
theorem exists_not_isInfix_respelled (hfront : nearestCase front.reverse = some true)
    (hback : nearestCase back ≠ some true) (hc : lower [c] = ['σ']) :
    ∃ d, lower [d] = ['σ'] ∧ ¬ lower (front ++ c :: back) <:+: lower (front ++ d :: back) := by
  have hends : lowerAt front.reverse 'Σ' back = ['ς'] :=
    lowerAt_of_endsWord (endsWord_iff.mpr ⟨hfront, hback⟩)
  have differ : ∀ {c d : Char}, lower [c] = ['σ'] → lower [d] = ['σ'] →
      lower (front ++ c :: back) <:+: lower (front ++ d :: back) →
        lowerAt front.reverse c back = lowerAt front.reverse d back := by
    intro c d hc hd hstands
    rw [lower_eq_lowerAmid, lower_eq_lowerAmid] at hstands
    have hsame := lowerAt_eq_of_isInfix (by rw [hc, hd]) hstands
    rwa [List.append_nil, List.append_nil] at hsame
  by_cases hcapital : c = 'Σ'
  · refine ⟨'σ', by decide, fun hstands => ?_⟩
    have hsame := differ hc (by decide) hstands
    rw [hcapital, hends, lowerAt_of_ne (by decide)] at hsame
    exact absurd hsame (by decide)
  · refine ⟨'Σ', lower_sigma, fun hstands => ?_⟩
    have hsame := differ hc lower_sigma hstands
    rw [hends, lowerAt_of_ne hcapital, hc] at hsame
    exact absurd hsame (by decide)

end Missed

/-- A sigma is inside, or it may end a word: nothing cased need follow it, and what precedes it is
cased or can be. -/
theorem inside_or (before after : List Char) :
    Inside before after ∨
      nearestCase after ≠ some true ∧
        (nearestCase before = none ∨ nearestCase before = some true) := by
  unfold Inside
  rcases hbefore : nearestCase before with _ | _ | _
  all_goals by_cases hafter : nearestCase after = some true
  all_goals simp [hafter]

theorem CapitalsSettled.of_noticed {cs : List Char} (hcs : '\\' ∉ cs)
    (h : ∀ path, '\\' ∉ path → cs <:+: path → lower cs <:+: lower path) : CapitalsSettled cs := by
  rintro front back rfl
  rcases inside_or front.reverse back with hinside | ⟨hback, hnone | hcased⟩
  · exact .inl hinside
  · have hpath :=
      h ('A' :: (front ++ 'Σ' :: back)) (by simpa using hcs) (List.infix_cons List.infix_rfl)
    exact absurd hpath (not_isInfix_behind_letter hnone hback lower_sigma)
  · rcases hafter : nearestCase back with _ | _ | _
    · have hpath :=
        h (front ++ 'Σ' :: back ++ ['a']) (by simpa using hcs) (List.prefix_append _ _).isInfix
      exact absurd hpath (not_isInfix_before_letter hcased hafter)
    · exact .inr ⟨hcased, hafter⟩
    · exact absurd hafter hback

theorem SigmasInside.of_noticed {cs : List Char} (hcs : '\\' ∉ cs)
    (h : ∀ path, '\\' ∉ path → OccursUpToCase cs path → lower cs <:+: lower path) :
    SigmasInside cs := by
  rintro front c back rfl hc
  have respelled : ∀ {d : Char}, lower [d] = ['σ'] →
      lowerEach (front ++ d :: back) = lowerEach (front ++ c :: back) := by
    intro d hd
    rw [lowerEach_append, lowerEach_append, lowerEach_cons, lowerEach_cons, hc, hd]
  rcases inside_or front.reverse back with hinside | ⟨hback, hnone | hcased⟩
  · exact hinside
  · have hspelling := respelled lower_sigma
    have hpath := h ('A' :: (front ++ 'Σ' :: back))
      (List.not_mem_cons_of_ne_of_not_mem (by decide) (backslash_notMem hspelling hcs))
      ⟨_, hspelling, List.infix_cons List.infix_rfl⟩
    exact absurd hpath (not_isInfix_behind_letter hnone hback hc)
  · obtain ⟨d, hd, hmissed⟩ := exists_not_isInfix_respelled hcased hback hc
    have hspelling := respelled hd
    exact absurd (h _ (backslash_notMem hspelling hcs) ⟨_, hspelling, List.infix_rfl⟩) hmissed

end Text

/-! ## Paths and selections -/

namespace Selection

theorem slashed_append (cs rest : List Char) : slashed (cs ++ rest) = slashed cs ++ slashed rest :=
  List.map_append

theorem slashed_of_notMem {cs : List Char} (h : '\\' ∉ cs) : slashed cs = cs := by
  have same : ∀ c ∈ cs, (if c = '\\' then '/' else c) = id c := by
    intro c hc
    have hne : c ≠ '\\' := fun heq => h (heq ▸ hc)
    exact if_neg hne
  rw [slashed, List.map_congr_left same, List.map_id]

/-- A path is left out if a spelling of an excluded text stands in it that is lower-cased everywhere
to what the excluded text is. -/
theorem excludes_of_lowerAmid {s : Selection} {t path : String} {spelling : List Char}
    (ht : t ∈ s.excludedTexts) (hspelling : '\\' ∉ spelling) (hpath : spelling <:+: path.toList)
    (hlower : ∀ before after, lowerAmid before spelling after = lower t.toList) :
    s.excludes path = true := by
  obtain ⟨front, back, hsplit⟩ := hpath
  have hstands := lowerAmid_isInfix (slashed front) spelling (slashed back)
  rw [hlower, ← slashed_of_notMem hspelling, ← slashed_append, ← slashed_append, hsplit] at hstands
  rw [excludes, Bool.or_eq_true]
  exact .inl (List.any_eq_true.mpr ⟨t, ht, occursIn_iff.mpr hstands⟩)

def without (t : String) : Selection := ⟨[], [t], []⟩

theorem excludes_without_iff {t : String} {cs : List Char} (h : '\\' ∉ cs) :
    (without t).excludes (String.ofList cs) = true ↔ lower t.toList <:+: lower cs := by
  have hdirs : (without t).excludesDir (String.ofList cs) = false := by
    simp [excludesDir, without]
  rw [excludes, hdirs, Bool.or_false]
  simp [excludesText, without, occursIn_iff, slashed_of_notMem h]

/-- Which excluded texts are noticed wherever they occur in a path: as they stand, those whose
capital sigmas are settled; in any spelling, those whose sigmas are inside; and where neither the
text nor the path has a capital sigma, all of them. -/
theorem excludes_occurrences_iff {t : String} (ht : '\\' ∉ t.toList) :
    ((∀ (s : Selection) (path : String), t ∈ s.excludedTexts → t.toList <:+: path.toList →
        s.excludes path = true) ↔ CapitalsSettled t.toList) ∧
    ((∀ (s : Selection) (path : String), t ∈ s.excludedTexts → OccursUpToCase t.toList path.toList →
        s.excludes path = true) ↔ SigmasInside t.toList) ∧
    ('Σ' ∉ t.toList → ∀ (s : Selection) (path : String), t ∈ s.excludedTexts → 'Σ' ∉ path.toList →
      OccursUpToCase t.toList path.toList → s.excludes path = true) := by
  have noticed : ∀ cs, '\\' ∉ cs → (without t).excludes (String.ofList cs) = true →
      lower t.toList <:+: lower cs := fun cs hcs => (excludes_without_iff hcs).mp
  refine ⟨⟨fun h => ?_, fun h s path hmem hpath => ?_⟩,
    ⟨fun h => ?_, fun h s path hmem hpath => ?_⟩,
    fun hcapital s path hmem hpath hoccurs => ?_⟩
  · refine .of_noticed ht fun cs hcs hstands => noticed cs hcs (h _ _ (by simp [without]) ?_)
    rwa [String.toList_ofList]
  · exact excludes_of_lowerAmid hmem ht hpath h.lowerAmid_eq
  · refine .of_noticed ht fun cs hcs hoccurs => noticed cs hcs (h _ _ (by simp [without]) ?_)
    rwa [String.toList_ofList]
  · obtain ⟨spelling, hspelling, hstands⟩ := hpath
    refine excludes_of_lowerAmid hmem (backslash_notMem hspelling ht) hstands fun before after => ?_
    rw [h.lowerAmid_eq hspelling, h.lower_eq]
  · obtain ⟨spelling, hspelling, hstands⟩ := hoccurs
    refine excludes_of_lowerAmid hmem (backslash_notMem hspelling ht) hstands fun before after => ?_
    rw [lowerAmid_of_notMem fun hsigma => hpath (hstands.subset hsigma), hspelling,
      lower_of_notMem hcapital]

/-- A word with a capital sigma inside, found in another spelling. -/
theorem excludes_occurrences_iff_inside :
    '\\' ∉ "ΔΟΚΙΜΑΣΙΑ".toList ∧
    (Selection.mk ["core"] ["test", "ΔΟΚΙΜΑΣΙΑ"] []).excludes "core/Δοκιμασια.gd" = true := by
  have ht : '\\' ∉ "ΔΟΚΙΜΑΣΙΑ".toList := by decide
  have hinside : SigmasInside "ΔΟΚΙΜΑΣΙΑ".toList := by decide +kernel
  have hoccurs : OccursUpToCase "ΔΟΚΙΜΑΣΙΑ".toList "core/Δοκιμασια.gd".toList :=
    ⟨"Δοκιμασια".toList, by decide +kernel, "core/".toList, ".gd".toList, by decide⟩
  obtain ⟨-, ⟨-, hnoticed⟩, -⟩ := excludes_occurrences_iff ht
  exact ⟨ht, hnoticed hinside _ _ (by simp) hoccurs⟩

/-- A word that ends in a capital sigma is not noticed in the name of a script: there the extension
follows the sigma, and the full stop is ignored. -/
theorem excluded_word_slips_through :
    '\\' ∉ "ΛΟΓΟΣ".toList ∧ "ΛΟΓΟΣ".toList <:+: "core/ΛΟΓΟΣ.gd".toList ∧
    (Selection.mk ["core"] ["ΛΟΓΟΣ"] []).excludes "core/ΛΟΓΟΣ.gd" = false :=
  ⟨by decide, ⟨"core/".toList, ".gd".toList, by decide⟩, by decide +kernel⟩

end Selection

end CastGuard
