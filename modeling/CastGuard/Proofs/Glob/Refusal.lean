/-
# `CastGuard.Proofs.Glob.Refusal` — which patterns are refused

A pattern for paths is read twice, as a whole and in each component.  The components decide: a
pattern is read exactly if each of them is (`parse_ok_iff`), because a piece of a component is the
same piece in the whole.  Only two stars look at their surroundings, and they take the slash behind
them along.

The search puts the project root in front of a scan root and a tail for scripts behind it.  Neither
can mend a pattern: a scan root that is refused on its own is refused there as well
(`rootPattern_refused`).
-/
import CastGuard.Proofs.Glob.Pattern

namespace CastGuard.Glob

open CastGuard.Text

/-! ## A piece and what follows it -/

theorem classBody?_append {cs body r : List Char} (h : classBody? cs = some (body, r))
    (more : List Char) :
    classBody? (cs ++ more) = some (body, r ++ more) := by
  cases cs with
  | nil => exact absurd h (by simp [classBody?])
  | cons c cs =>
    unfold classBody? at h
    cases hdrop : cs.dropWhile (· != ']') with
    | nil => exact absurd h (by simp [hdrop])
    | cons d rest =>
      obtain ⟨rfl, rfl⟩ : c :: cs.takeWhile (· != ']') = body ∧ rest = r := by simpa [hdrop] using h
      have hsplit : cs ++ more = cs.takeWhile (· != ']') ++ (d :: rest ++ more) := by
        rw [← List.append_assoc, ← hdrop, List.takeWhile_append_dropWhile]
      have hfront : ∀ e ∈ cs.takeWhile (· != ']'), (e != ']') = true :=
        List.all_eq_true.mp List.all_takeWhile
      have hstop : ∀ e, (d :: rest ++ more).head? = some e → (e != ']') = false := by
        intro e he
        obtain rfl : d = e := by simpa using he
        exact head?_dropWhile_false (p := (· != ']')) (by rw [hdrop]; rfl)
      rw [List.cons_append, hsplit, classBody?, takeWhile_append_stop hfront hstop,
        dropWhile_append_stop hfront hstop]
      rfl

theorem class?_append {cs r : List Char} {t : Token} (h : class? cs = some (t, r))
    (more : List Char) :
    class? (cs ++ more) = some (t, r ++ more) := by
  unfold class? at h
  split at h
  · obtain ⟨⟨body, rest⟩, hbody, heq⟩ := Option.map_eq_some_iff.mp h
    obtain ⟨rfl, rfl⟩ := Prod.mk.inj heq
    simp [class?, classBody?_append hbody]
  · next hplain =>
    obtain ⟨⟨body, rest⟩, hbody, heq⟩ := Option.map_eq_some_iff.mp h
    obtain ⟨rfl, rfl⟩ := Prod.mk.inj heq
    have hmore := classBody?_append hbody more
    unfold class?
    split
    · next heq =>
      cases cs with
      | nil => exact absurd hbody (by simp [classBody?])
      | cons c cs => exact absurd (congrArg (· :: cs) (List.cons.inj heq).1) (hplain cs)
    · rw [hmore]
      rfl

/-- A component ends, or a slash follows. -/
def Ends (more : List Char) : Prop := more = [] ∨ ∃ rest, more = '/' :: rest

/-- Two stars may stand behind the character. -/
def Admits (before : Option Char) : Prop := before = none ∨ before = some '/'

/-- Stars at the end of a component take the slash behind them along. -/
theorem stars?_append {p p' n : Nat} {before before' : Option Char}
    {cs r more : List Char} {t : Token}
    (h : stars? p before n cs = .ok (t, r)) (hcs : '/' ∉ cs)
    (hbefore : Admits before → Admits before')
    (hmore : Ends more) :
    stars? p' before' n (cs ++ more) = .ok (t, r ++ more) ∨
      r = [] ∧ ∃ rest, more = '/' :: rest ∧ stars? p' before' n (cs ++ more) = .ok (t, rest) := by
  unfold stars? at h ⊢
  by_cases hmany : 2 < n
  · exact absurd h (by simp [hmany])
  by_cases hone : n < 2
  · obtain ⟨rfl, rfl⟩ : Token.anyText = t ∧ cs = r := by simpa [hmany, hone] using h
    exact .inl (by simp [hmany, hone])
  by_cases hadmits : before ≠ none ∧ before ≠ some '/'
  · exact absurd h (by simp [hmany, hone, hadmits])
  have hadmits' : ¬ (before' ≠ none ∧ before' ≠ some '/') := by
    rintro ⟨hnone, hslash⟩
    by_cases hfirst : before = none
    · exact (hbefore (.inl hfirst)).elim hnone hslash
    · refine (hbefore (.inr ?_)).elim hnone hslash
      exact Decidable.not_not.mp fun hother => hadmits ⟨hfirst, hother⟩
  simp only [hmany, hone, hadmits, hadmits', if_false] at h ⊢
  cases cs with
  | nil =>
    obtain ⟨rfl, rfl⟩ : Token.anyDepth = t ∧ [] = r := by simpa using h
    rcases hmore with rfl | ⟨rest, rfl⟩
    · exact .inl rfl
    · exact .inr ⟨rfl, rest, rfl, rfl⟩
  | cons c cs =>
    -- a third kind of character is not allowed behind two stars
    have hc : c ≠ '/' := fun heq => hcs (by simp [heq])
    split at h
    · next heq => exact absurd heq (by simp)
    · next heq => exact absurd (List.cons.inj heq).1 hc
    · exact absurd h (by simp)

theorem token?_append {p p' : Nat} {before before' : Option Char}
    {part r more : List Char} {t : Token}
    (h : token? p before part = some (.ok (t, r))) (hpart : '/' ∉ part)
    (hbefore : Admits before → Admits before') (hmore : Ends more) :
    token? p' before' (part ++ more) = some (.ok (t, r ++ more)) ∨
      r = [] ∧ ∃ rest, more = '/' :: rest ∧
        token? p' before' (part ++ more) = some (.ok (t, rest)) := by
  unfold token? at h
  split at h
  · exact absurd h (by simp)
  · obtain ⟨rfl, rfl⟩ : Token.anyChar = t ∧ _ = r := by simpa using h
    exact .inl rfl
  · next cs =>
    have hsplit : cs ++ more = cs.takeWhile (· == '*') ++ (cs.dropWhile (· == '*') ++ more) := by
      rw [← List.append_assoc, List.takeWhile_append_dropWhile]
    have hfront : ∀ c ∈ cs.takeWhile (· == '*'), (c == '*') = true :=
      List.all_eq_true.mp List.all_takeWhile
    have hstop : ∀ c, (cs.dropWhile (· == '*') ++ more).head? = some c → (c == '*') = false := by
      intro c hc
      rw [List.head?_append] at hc
      cases hhead : (cs.dropWhile (· == '*')).head? with
      | some d =>
        obtain rfl : d = c := by simpa [hhead] using hc
        exact head?_dropWhile_false (p := (· == '*')) hhead
      | none =>
        rcases hmore with rfl | ⟨rest, rfl⟩
        · exact absurd hc (by simp [hhead])
        · obtain rfl : '/' = c := by simpa [hhead] using hc
          rfl
    have hslash : '/' ∉ cs.dropWhile (· == '*') := fun hmem =>
      hpart (List.mem_cons_of_mem _ ((List.dropWhile_suffix _).mem hmem))
    rw [List.cons_append, hsplit]
    simp only [token?, takeWhile_append_stop hfront hstop, dropWhile_append_stop hfront hstop,
      Option.some.injEq]
    exact stars?_append (Option.some.inj h) hslash hbefore hmore
  · next cs =>
    split at h
    · next hclass =>
      obtain ⟨rfl, rfl⟩ : _ = t ∧ _ = r := by simpa using h
      exact .inl (by simp [token?, class?_append hclass])
    · exact absurd h (by simp)
  · next c cs hany hstar hclass =>
    obtain ⟨rfl, rfl⟩ : Token.char c = t ∧ cs = r := by simpa using h
    have hplain : c ∉ ['?', '*', '['] := by
      intro hmem
      simp only [List.mem_cons, List.not_mem_nil, or_false] at hmem
      rcases hmem with rfl | rfl | rfl
      · exact hany rfl
      · exact hstar rfl
      · exact hclass rfl
    exact .inl (token?_plain hplain _ _ _)

theorem class?_suffix {cs r : List Char} {t : Token} (h : class? cs = some (t, r)) : r <:+ cs := by
  have hbody : ∀ {cs body r : List Char}, classBody? cs = some (body, r) → r <:+ cs := by
    intro cs body r hbody
    cases cs with
    | nil => exact absurd hbody (by simp [classBody?])
    | cons c cs =>
      unfold classBody? at hbody
      cases hdrop : cs.dropWhile (· != ']') with
      | nil => exact absurd hbody (by simp [hdrop])
      | cons d rest =>
        obtain ⟨-, rfl⟩ : c :: cs.takeWhile (· != ']') = body ∧ rest = r := by
          simpa [hdrop] using hbody
        have hrest : d :: rest <:+ cs := hdrop ▸ List.dropWhile_suffix _
        exact (List.suffix_cons d rest).trans (hrest.trans (List.suffix_cons c cs))
  unfold class? at h
  split at h
  all_goals
    obtain ⟨⟨body, rest⟩, hread, heq⟩ := Option.map_eq_some_iff.mp h
    obtain ⟨-, rfl⟩ := Prod.mk.inj heq
  · exact (hbody hread).trans (List.suffix_cons _ _)
  · exact hbody hread

theorem stars?_suffix {p n : Nat} {before : Option Char} {cs r : List Char} {t : Token}
    (h : stars? p before n cs = .ok (t, r)) : r <:+ cs := by
  unfold stars? at h
  split at h
  · exact absurd h (by simp)
  split at h
  · obtain ⟨-, rfl⟩ : Token.anyText = t ∧ cs = r := by simpa using h
    exact List.suffix_refl _
  split at h
  · exact absurd h (by simp)
  split at h
  · obtain ⟨-, rfl⟩ : Token.anyDepth = t ∧ [] = r := by simpa using h
    exact List.nil_suffix
  · next rest =>
    obtain ⟨-, rfl⟩ : Token.anyDepth = t ∧ rest = r := by simpa using h
    exact List.suffix_cons _ _
  · exact absurd h (by simp)

theorem token?_suffix {p : Nat} {before : Option Char} {cs r : List Char} {t : Token}
    (h : token? p before cs = some (.ok (t, r))) : r <:+ cs := by
  unfold token? at h
  split at h
  · exact absurd h (by simp)
  · next cs =>
    obtain ⟨-, rfl⟩ : Token.anyChar = t ∧ cs = r := by simpa using h
    exact List.suffix_cons _ _
  · exact (stars?_suffix (Option.some.inj h)).trans
      ((List.dropWhile_suffix _).trans (List.suffix_cons _ _))
  · split at h
    · next hclass =>
      obtain ⟨-, rfl⟩ : _ = t ∧ _ = r := by simpa using h
      exact (class?_suffix hclass).trans (List.suffix_cons _ _)
    · exact absurd h (by simp)
  · next c cs _ _ _ =>
    obtain ⟨-, rfl⟩ : Token.char c = t ∧ cs = r := by simpa using h
    exact List.suffix_cons _ _

/-! ## Components and the whole -/

/-- The pattern is read from any position, behind a given character. -/
def Legible (before : Option Char) (cs : List Char) : Prop :=
  ∀ position, ∃ ts, tokensFrom position before cs = .ok ts

theorem legible_nil (before : Option Char) : Legible before [] := fun position =>
  ⟨[], tokensFrom_nil position before⟩

theorem exists_tokensFrom {position : Nat} {before : Option Char} {cs rest : List Char} {t : Token}
    (h : token? position before cs = some (.ok (t, rest)))
    (hrest : rest.length < cs.length →
      Legible (cs.take (cs.length - rest.length)).getLast? rest) :
    ∃ ts, tokensFrom position before cs = .ok ts := by
  rw [tokensFrom, h]
  by_cases hlt : rest.length < cs.length
  · obtain ⟨ts, hts⟩ := hrest hlt (position + (cs.take (cs.length - rest.length)).length)
    refine ⟨t :: ts, ?_⟩
    simp only [hlt, dif_pos]
    rw [hts]
  · exact ⟨[t], by simp [hlt]⟩

theorem exists_tokensFrom_slash {position : Nat} {before : Option Char} {part more rest : List Char}
    {t : Token} (hmore : more = [] ∨ ∃ rest, more = '/' :: rest ∧ Legible (some '/') rest)
    (heq : more = '/' :: rest)
    (htoken : token? position before (part ++ more) = some (.ok (t, rest))) :
    ∃ ts, tokensFrom position before (part ++ more) = .ok ts := by
  obtain ⟨rest', heq', hlegible⟩ := hmore.resolve_left (by simp [heq])
  obtain rfl : rest' = rest := (List.cons.inj (heq'.symm.trans heq)).2
  refine exists_tokensFrom htoken fun _ => ?_
  have hread : (part ++ more).take ((part ++ more).length - rest'.length) = part ++ ['/'] := by
    rw [heq, List.append_cons, List.length_append, Nat.add_sub_cancel, List.take_left]
  rw [hread, List.getLast?_concat]
  exact hlegible

/-- A component that is read on its own is read in front of a slash and anything that is read
itself. -/
theorem legible_append {position : Nat} {before before' : Option Char} {part : List Char}
    {ts : List Token}
    (h : tokensFrom position before part = .ok ts) (hpart : '/' ∉ part)
    (hbefore : Admits before → Admits before') {more : List Char}
    (hmore : more = [] ∨ ∃ rest, more = '/' :: rest ∧ Legible (some '/') rest) :
    Legible before' (part ++ more) := by
  have hends : Ends more := hmore.imp_right fun ⟨rest, heq, _⟩ => ⟨rest, heq⟩
  induction position, before, part using tokensFrom.induct generalizing ts before' with
  | case1 position before part htoken =>
    obtain rfl : part = [] := by
      unfold token? at htoken
      split at htoken
      · rfl
      all_goals first
        | exact absurd htoken (by simp)
        | (split at htoken <;> exact absurd htoken (by simp))
    rcases hmore with rfl | ⟨rest, rfl, hrest⟩
    · exact legible_nil _
    · intro position'
      refine exists_tokensFrom (token?_plain (by decide) _ _ _) fun _ => ?_
      simpa [Nat.add_sub_cancel_left] using hrest
  | case2 position before part e htoken =>
    rw [tokensFrom, htoken] at h
    exact absurd h (by simp)
  | case3 position before part t r htoken hlt read e hread =>
    rw [tokensFrom, htoken] at h
    simp only [hlt, dif_pos] at h
    rw [hread] at h
    exact absurd h (by simp)
  | case4 position before part t r htoken hlt read ts' hread =>
    rename_i ih
    intro position'
    rcases token?_append htoken hpart hbefore hends with htoken' | ⟨-, rest, heq, htoken'⟩
    · refine exists_tokensFrom htoken' fun _ => ?_
      have hsame : (part ++ more).take ((part ++ more).length - (r ++ more).length) = read := by
        rw [List.length_append, List.length_append, Nat.add_sub_add_right,
          List.take_append_of_le_length (Nat.sub_le _ _)]
      rw [hsame]
      exact ih hread (fun hmem => hpart ((token?_suffix htoken).mem hmem)) id
    · exact exists_tokensFrom_slash hmore heq htoken'
  | case5 position before part t r htoken hlt =>
    intro position'
    rcases token?_append htoken hpart hbefore hends with htoken' | ⟨-, rest, heq, htoken'⟩
    · exact exists_tokensFrom htoken' fun hlt' => absurd hlt' (by simpa using hlt)
    · exact exists_tokensFrom_slash hmore heq htoken'

theorem legible_of_parts {cs : List Char} (h : ∀ part ∈ parts '/' cs, ∃ ts, tokens part = .ok ts)
    {before : Option Char} (hbefore : Admits before) : Legible before cs := by
  induction cs using parts_induction '/' generalizing before with
  | last part hpart =>
    obtain ⟨ts, hts⟩ := h part (by simp [parts_of_notMem hpart])
    have hread := legible_append hts hpart (fun _ => hbefore) (.inl rfl)
    rwa [List.append_nil] at hread
  | more part rest hpart ih =>
    rw [parts_append_cons hpart, List.forall_mem_cons] at h
    obtain ⟨⟨ts, hts⟩, hrest⟩ := h
    exact legible_append hts hpart (fun _ => hbefore) (.inr ⟨rest, rfl, ih hrest (.inr rfl)⟩)

theorem mapM_parse_ok_iff {ps : List (List Char)} :
    (∃ segments, ps.mapM Segment.parse = .ok segments) ↔
      ∀ part ∈ ps, ∃ ts, tokens part = .ok ts := by
  induction ps with
  | nil => exact ⟨fun _ part hpart => absurd hpart List.not_mem_nil, fun _ => ⟨[], rfl⟩⟩
  | cons p ps ih =>
    rw [List.forall_mem_cons, ← ih, List.mapM_cons, Segment.parse]
    cases tokens p with
    | error e => simp [bind, Except.bind, Except.map]
    | ok ts => cases ps.mapM Segment.parse <;>
      simp [bind, Except.bind, Except.map, pure, Except.pure]

theorem parse_ok_iff {cs : List Char} :
    (∃ pattern, PathPattern.parse cs = .ok pattern) ↔
      ∀ part ∈ parts '/' cs, ∃ ts, tokens part = .ok ts := by
  -- the empty component in front of a slash is read
  have hparts :
    (∀ part ∈ parts '/' (if cs.head? = some '/' then cs.drop 1 else cs), ∃ ts,
      tokens part = .ok ts) ↔
      ∀ part ∈ parts '/' cs, ∃ ts, tokens part = .ok ts := by
    split
    · next hhead =>
      obtain ⟨rest, rfl⟩ : ∃ rest, cs = '/' :: rest := by
        cases cs with
        | nil => exact absurd hhead (by simp)
        | cons c cs => exact ⟨cs, by simpa using hhead⟩
      have hempty : ∃ ts, tokens [] = .ok ts := ⟨[], tokensFrom_nil 0 none⟩
      rw [show parts '/' ('/' :: rest) = [] :: parts '/' rest from rfl, List.forall_mem_cons]
      exact ⟨fun h => ⟨hempty, h⟩, fun h => h.2⟩
    · exact Iff.rfl
  rw [← hparts]
  constructor
  · rintro ⟨pattern, hpattern⟩
    exact mapM_parse_ok_iff.mp ⟨_, (parse_eq_ok_iff.mp hpattern).2.2⟩
  · intro h
    obtain ⟨segments, hsegments⟩ := mapM_parse_ok_iff.mpr h
    exact ⟨⟨_, segments⟩, parse_eq_ok_iff.mpr
      ⟨legible_of_parts (hparts.mp h) (.inl rfl) 0, rfl, hsegments⟩⟩

/-! ## Scan roots -/

theorem mem_parts_dropSlashes {cs part : List Char} (h : part ∈ parts '/' cs) (hne : part ≠ []) :
    part ∈ parts '/' (cs.dropWhile (· == '/')) := by
  induction cs with
  | nil => exact h
  | cons c cs ih =>
    by_cases hc : c = '/'
    · rw [hc, show parts '/' ('/' :: cs) = [] :: parts '/' cs from rfl] at h
      rw [hc, List.dropWhile_cons_of_pos (by rfl)]
      exact ih ((List.mem_cons.mp h).resolve_left hne)
    · rwa [List.dropWhile_cons_of_neg (by simpa using hc)]

theorem mem_parts_reverse_dropSlashes {cs part : List Char} (h : part ∈ parts '/' cs.reverse)
    (hne : part ≠ []) : part ∈ parts '/' (cs.dropWhile (· == '/')).reverse := by
  induction cs with
  | nil => exact h
  | cons c cs ih =>
    by_cases hc : c = '/'
    · rw [hc, List.reverse_cons, parts_append] at h
      rw [hc, List.dropWhile_cons_of_pos (by rfl)]
      refine ih ((List.mem_append.mp h).resolve_right fun hlast => hne ?_)
      exact List.mem_singleton.mp hlast
    · rwa [List.dropWhile_cons_of_neg (by simpa using hc)]

theorem mem_parts_trimRoot {root : String} {part : List Char} (h : part ∈ parts '/' root.toList)
    (hne : part ≠ []) : part ∈ parts '/' (Selection.trimRoot root).toList := by
  rw [Selection.trimRoot, String.toList_ofList]
  refine mem_parts_reverse_dropSlashes ?_ hne
  rw [List.reverse_reverse]
  exact mem_parts_dropSlashes h hne

/-- A scan root that is refused on its own is refused by the search. -/
theorem rootPattern_refused {root : String} {e : PatternError}
    (h : PathPattern.parse root.toList = .error e) (base : String) :
    ∃ e', PathPattern.parse (Tree.rootPattern base (Selection.trimRoot root)) = .error e' := by
  cases hpattern : PathPattern.parse (Tree.rootPattern base (Selection.trimRoot root)) with
  | error e' => exact ⟨e', rfl⟩
  | ok pattern =>
    have hall := parse_ok_iff.mp ⟨pattern, hpattern⟩
    rw [parts_rootPattern] at hall
    have hroot : ∀ part ∈ parts '/' root.toList, ∃ ts, tokens part = .ok ts := by
      intro part hpart
      by_cases hne : part = []
      · exact ⟨[], hne ▸ tokensFrom_nil 0 none⟩
      · refine hall part (List.mem_append_right _ (List.mem_append_left _ ?_))
        exact mem_parts_trimRoot hpart hne
    obtain ⟨pattern', hread⟩ := parse_ok_iff.mpr hroot
    rw [hread] at h
    exact absurd h (by simp)

end CastGuard.Glob
