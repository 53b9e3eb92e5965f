/-
# `CastGuard.Proofs.Glob.Pattern` — what patterns are read as

An escaped text is read as one piece for each of its characters, and these pieces match the text and
nothing else.  A component of a pattern that is read as a name without wildcards is that name.  With
this, the components of the pattern for a scan root are known (`mapM_parse_rootPattern`): those of
the project root as they are, those of the scan root as it has them, and then scripts at any depth.
-/
import CastGuard.Proofs.Text.Runs
import CastGuard.Store.Tree

namespace CastGuard.Glob

open Text

/-! ## Pieces -/

def exactToken (c : Char) : Token :=
  if c ∈ ['?', '*', '[', ']'] then .oneOf [.single c] else .char c

theorem matchesChar_exactToken (c d : Char) : (exactToken c).matchesChar d = decide (d = c) := by
  unfold exactToken
  split <;> simp [Token.matchesChar, Member.holds]

theorem tokensFrom_of_token {position : Nat} {before : Option Char}
    {cs rest : List Char} {t : Token}
    (h : token? position before cs = some (.ok (t, rest))) (hlt : rest.length < cs.length) :
    ∃ position' before', tokensFrom position before cs =
      (tokensFrom position' before' rest).map (t :: ·) := by
  refine ⟨position + (cs.take (cs.length - rest.length)).length,
    (cs.take (cs.length - rest.length)).getLast?, ?_⟩
  rw [tokensFrom, h]
  simp only [hlt, dif_pos]
  cases tokensFrom _ _ rest <;> rfl

theorem tokensFrom_nil (position : Nat) (before : Option Char) :
    tokensFrom position before [] = .ok [] := by
  rw [tokensFrom]
  rfl

theorem token?_plain {c : Char} (h : c ∉ ['?', '*', '[']) (position : Nat) (before : Option Char)
    (cs : List Char) : token? position before (c :: cs) = some (.ok (.char c, cs)) := by
  simp only [List.mem_cons, List.not_mem_nil, or_false, not_or] at h
  unfold token?
  split <;> simp_all

theorem token?_bracketed {c : Char} (h : c ∈ ['?', '*', '[', ']']) (position : Nat)
    (before : Option Char) (cs : List Char) :
    token? position before ('[' :: c :: ']' :: cs) = some (.ok (.oneOf [.single c], cs)) := by
  simp only [List.mem_cons, List.not_mem_nil, or_false] at h
  rcases h with rfl | rfl | rfl | rfl <;> rfl

theorem escape_cons (c : Char) (cs : List Char) : escape (c :: cs) =
    (if c ∈ ['?', '*', '[', ']'] then ['[', c, ']'] else [c]) ++ escape cs := List.flatMap_cons

theorem tokensFrom_escape (cs rest : List Char) (position : Nat) (before : Option Char) :
    ∃ position' before', tokensFrom position before (escape cs ++ rest) =
      (tokensFrom position' before' rest).map (cs.map exactToken ++ ·) := by
  induction cs generalizing position before with
  | nil =>
    refine ⟨position, before, ?_⟩
    simp only [escape, List.flatMap_nil, List.nil_append, List.map_nil]
    cases tokensFrom position before rest <;> rfl
  | cons c cs ih =>
    have hread : ∃ position' before', tokensFrom position before (escape (c :: cs) ++ rest) =
        (tokensFrom position' before' (escape cs ++ rest)).map (exactToken c :: ·) := by
      by_cases hc : c ∈ ['?', '*', '[', ']']
      · have hcs : escape (c :: cs) ++ rest = '[' :: c :: ']' :: (escape cs ++ rest) := by
          rw [escape_cons, if_pos hc]
          rfl
        rw [hcs, exactToken, if_pos hc]
        exact tokensFrom_of_token (token?_bracketed hc _ _ _) (by simp; omega)
      · have hcs : escape (c :: cs) ++ rest = c :: (escape cs ++ rest) := by
          rw [escape_cons, if_neg hc]
          rfl
        rw [hcs, exactToken, if_neg hc]
        exact tokensFrom_of_token (token?_plain (fun h => hc (by simp_all)) _ _ _) (by simp)
    obtain ⟨position₁, before₁, hread⟩ := hread
    obtain ⟨position', before', hrest⟩ := ih position₁ before₁
    refine ⟨position', before', ?_⟩
    rw [hread, hrest]
    cases tokensFrom position' before' rest <;> rfl

theorem tokens_escape (cs : List Char) : tokens (escape cs) = .ok (cs.map exactToken) := by
  obtain ⟨position, before, h⟩ := tokensFrom_escape cs [] 0 none
  rw [List.append_nil, tokensFrom_nil] at h
  rw [tokens, h]
  simp [Except.map]

/-! ## Matching -/

/-- Pieces that stand for one character each match texts of their length only. -/
theorem compareName_map {f : Char → Token} (hf : ∀ c d, (f c).matchesChar d = decide (d = c))
    (cs name : List Char) :
    (compareName (cs.map f) name = .same ↔ name = cs) ∧
      (compareName (cs.map f) name = .tooShort → name.length < cs.length) := by
  have hne : ∀ c, f c ≠ .anyText := by
    intro c heq
    exact absurd (hf c c) (by simp [heq, Token.matchesChar])
  induction cs generalizing name with
  | nil => cases name <;> simp [compareName]
  | cons c cs ih =>
    cases name with
    | nil =>
      rw [List.map_cons, compareName]
      · simp
      · exact hne c
    | cons d name =>
      rw [List.map_cons, compareName, hf]
      · by_cases hd : d = c
        · simpa [hd] using ih name
        · simp [hd]
      · exact hne c

theorem matchesName_exact {cs name : List Char} :
    matchesName (cs.map exactToken) name = true ↔ name = cs := by
  rw [matchesName, decide_eq_true_iff]
  exact (compareName_map matchesChar_exactToken cs name).1

theorem matchesName_ending {cs name : List Char} :
    matchesName (.anyText :: cs.map .char) name = true ↔ cs <:+ name := by
  rw [matchesName, decide_eq_true_iff]
  have hchar : ∀ c d, (Token.char c).matchesChar d = decide (d = c) := fun _ _ => rfl
  induction name with
  | nil =>
    rw [compareName, (compareName_map hchar cs []).1, List.suffix_nil]
    exact eq_comm
  | cons d name ih =>
    obtain ⟨hsame, hshort⟩ := compareName_map hchar cs (d :: name)
    rw [compareName]
    cases hcompare : compareName (cs.map .char) (d :: name) with
    | same => simp [hsame.mp hcompare]
    | different =>
      simp only [ih]
      refine ⟨fun h => h.trans (List.suffix_cons ..), fun h => ?_⟩
      rcases List.suffix_cons_iff.mp h with heq | h
      · exact absurd (hsame.mpr heq.symm) (by simp [hcompare])
      · exact h
    | tooShort =>
      have hlt := hshort hcompare
      refine ⟨fun h => absurd h (by simp), fun h => ?_⟩
      exact absurd h.length_le (Nat.not_le.mpr hlt)

/-! ## Components -/

theorem class?_eq_some {cs rest : List Char} {t : Token}
    (h : class? cs = some (t, rest)) (c : Char) :
    t ≠ .char c := by
  unfold class? at h
  split at h
  all_goals
    obtain ⟨body, -, heq⟩ := Option.map_eq_some_iff.mp h
    rw [← (Prod.mk.inj heq).1]
    simp

theorem token?_eq_char {position : Nat} {before : Option Char} {cs rest : List Char} {c : Char}
    (h : token? position before cs = some (.ok (.char c, rest))) : cs = c :: rest := by
  unfold token? at h
  split at h
  · exact absurd h (by simp)
  · exact absurd h (by simp)
  · next cs =>
    unfold stars? at h
    repeat' split at h
    all_goals exact absurd h (by simp)
  · next cs =>
    split at h
    · next t rest' hclass =>
      obtain ⟨rfl, rfl⟩ : t = .char c ∧ rest' = rest := by simpa using h
      exact absurd rfl (class?_eq_some hclass c)
    · exact absurd h (by simp)
  · obtain ⟨rfl, rfl⟩ : _ = c ∧ _ = rest := by simpa using h
    rfl

theorem literal?_cons {t : Token} {ts : List Token} {text : List Char}
    (h : literal? (t :: ts) = some text) :
    ∃ c text', t = .char c ∧ literal? ts = some text' ∧ text = c :: text' := by
  cases t with
  | char c =>
    obtain ⟨text', htext', rfl⟩ := Option.map_eq_some_iff.mp h
    exact ⟨c, text', rfl, htext', rfl⟩
  | _ => exact absurd h (by simp [literal?])

theorem literal?_tokensFrom {position : Nat} {before : Option Char} {cs text : List Char}
    {ts : List Token} (h : tokensFrom position before cs = .ok ts)
    (hliteral : literal? ts = some text) :
    text = cs := by
  induction position, before, cs using tokensFrom.induct generalizing ts text with
  | case1 position before cs htoken =>
    obtain rfl : cs = [] := by
      unfold token? at htoken
      split at htoken
      · rfl
      all_goals first
        | exact absurd htoken (by simp)
        | (split at htoken <;> exact absurd htoken (by simp))
    rw [tokensFrom_nil] at h
    obtain rfl := Except.ok.inj h
    exact (Option.some.inj hliteral).symm
  | case2 position before cs e htoken =>
    rw [tokensFrom, htoken] at h
    exact absurd h (by simp)
  | case3 position before cs t rest htoken hlt read e hrest =>
    rw [tokensFrom, htoken] at h
    simp only [hlt, dif_pos] at h
    rw [hrest] at h
    exact absurd h (by simp)
  | case4 position before cs t rest htoken hlt read ts' hrest =>
    rename_i ih
    rw [tokensFrom, htoken] at h
    simp only [hlt, dif_pos] at h
    rw [hrest] at h
    obtain rfl := Except.ok.inj h
    obtain ⟨c, text', rfl, htext', rfl⟩ := literal?_cons hliteral
    rw [ih hrest htext', token?_eq_char htoken]
  | case5 position before cs t rest htoken hlt =>
    rw [tokensFrom, htoken] at h
    obtain rfl : [t] = ts := by simpa [hlt] using h
    obtain ⟨c, text', rfl, -, -⟩ := literal?_cons hliteral
    exact absurd (by simp [token?_eq_char htoken]) hlt

theorem Segment.parse_eq_literal {part : List Char} {name : String}
    (h : Segment.parse part = .ok (.literal name)) : name.toList = part := by
  unfold Segment.parse at h
  cases htokens : tokens part with
  | error e => exact absurd h (by simp [htokens, Except.map])
  | ok ts =>
    have hsegment : Segment.ofTokens ts = .literal name := by
      simpa [htokens, Except.map] using h
    unfold Segment.ofTokens at hsegment
    split at hsegment
    · exact absurd hsegment (by simp)
    · split at hsegment
      · next text htext =>
        rw [← Segment.literal.inj hsegment, String.toList_ofList]
        exact literal?_tokensFrom htokens htext
      · exact absurd hsegment (by simp)

def Segment.exact (part : List Char) : Segment := .ofTokens (part.map exactToken)

theorem Segment.parse_escape (part : List Char) :
    Segment.parse (escape part) = .ok (.exact part) := by
  rw [Segment.parse, tokens_escape]
  rfl

theorem anyDepth_notMem_exact (part : List Char) : .anyDepth ∉ part.map exactToken := by
  simp only [List.mem_map, not_exists, not_and]
  intro c _
  unfold exactToken
  split <;> simp

theorem literal?_exact (part : List Char) : literal? (part.map exactToken) =
    if part.any (· ∈ ['?', '*', '[', ']']) then none else some part := by
  induction part with
  | nil => rfl
  | cons c part ih =>
    rw [List.map_cons, List.any_cons, exactToken]
    by_cases hc : c ∈ ['?', '*', '[', ']']
    · rw [if_pos hc, decide_eq_true hc]
      rfl
    · rw [if_neg hc, decide_eq_false hc, Bool.false_or, literal?, ih]
      split <;> rfl

/-- A component that is an escaped text is that text, or pieces that match it alone. -/
theorem Segment.exact_cases (part : List Char) :
    Segment.exact part = .literal (String.ofList part) ∨
      Segment.exact part = .wildcard (part.map exactToken) ∧
        ∃ c ∈ part, c ∈ ['?', '*', '[', ']'] := by
  rw [Segment.exact, Segment.ofTokens, if_neg (anyDepth_notMem_exact part), literal?_exact]
  by_cases hspecial : part.any (· ∈ ['?', '*', '[', ']']) = true
  · rw [if_pos hspecial]
    exact .inr ⟨rfl, by simpa using hspecial⟩
  · rw [if_neg hspecial]
    exact .inl rfl

theorem dotNames_exact {part : List Char} (h : ∃ c ∈ part, c ∈ ['?', '*', '[', ']']) :
    dotNames (part.map exactToken) = [] := by
  obtain ⟨c, hc, hspecial⟩ := h
  rw [List.eq_nil_iff_forall_not_mem]
  intro name hname
  unfold dotNames at hname
  split at hname
  · obtain ⟨hmem, hfits⟩ := List.mem_filter.mp hname
    -- the dots hold none of the characters that are escaped
    rw [← matchesName_exact.mp hfits] at hc
    simp only [List.mem_cons, List.not_mem_nil, or_false] at hmem hspecial
    rcases hmem with rfl | rfl <;> rcases hspecial with rfl | rfl | rfl | rfl <;>
      exact absurd hc (by decide)
  · exact absurd hname List.not_mem_nil

/-! ## Whole patterns -/

theorem escape_append (cs ds : List Char) : escape (cs ++ ds) = escape cs ++ escape ds :=
  List.flatMap_append

theorem slash_mem_escape {cs : List Char} : '/' ∈ escape cs ↔ '/' ∈ cs := by
  induction cs with
  | nil => simp [escape]
  | cons c cs ih =>
    rw [escape_cons, List.mem_append, ih]
    refine (or_congr_left ?_).trans List.mem_cons.symm
    by_cases hc : c ∈ ['?', '*', '[', ']']
    · rw [if_pos hc]
      simp only [List.mem_cons, List.not_mem_nil, or_false] at hc
      rcases hc with rfl | rfl | rfl | rfl <;> decide
    · rw [if_neg hc, List.mem_singleton]

theorem parts_escape (cs : List Char) : parts '/' (escape cs) = (parts '/' cs).map escape := by
  induction cs using parts_induction '/' with
  | last part hpart =>
    rw [parts_of_notMem (by rwa [slash_mem_escape]), parts_of_notMem hpart]
    rfl
  | more part rest hpart ih =>
    have hslash : escape (part ++ '/' :: rest) = escape part ++ '/' :: escape rest := by
      rw [escape_append, escape_cons]
      rfl
    rw [hslash, parts_append_cons (by rwa [slash_mem_escape]), parts_append_cons hpart, ih]
    rfl

/-- What is found at any depth: names that end like a script's. -/
def scriptSegment : Segment := .wildcard (.anyText :: ['.', 'g', 'd'].map .char)

theorem rootPattern_eq (base root : String) :
    Tree.rootPattern base root =
      (if base.isEmpty then [] else escape base.toList ++ ['/']) ++
        (root.toList ++ '/' :: ['*', '*', '/', '*', '.', 'g', 'd']) := by
  have htail : "/**/*.".toList ++ scriptExtension.toList =
      '/' :: ['*', '*', '/', '*', '.', 'g', 'd'] := by decide
  rw [Tree.rootPattern, List.append_assoc, List.append_assoc, htail]

/-- Without the slashes at its ends a scan root does not start with a slash. -/
theorem head?_trimRoot (root : String) : (Selection.trimRoot root).toList.head? ≠ some '/' := by
  intro h
  rw [Selection.trimRoot, String.toList_ofList] at h
  generalize hfront : root.toList.dropWhile (· == '/') = front at h
  have hprefix : (front.reverse.dropWhile (· == '/')).reverse <+: front := by
    rw [← List.reverse_reverse front, List.reverse_prefix, List.reverse_reverse]
    exact List.dropWhile_suffix _
  obtain ⟨back, hback⟩ := hprefix
  have hhead : front.head? = some '/' := by
    rw [← hback, List.head?_append, h]
    rfl
  have hstop := List.head?_dropWhile_not (· == '/') root.toList
  rw [hfront, hhead] at hstop
  exact absurd hstop (by simp)

theorem head?_escape {cs : List Char} : (escape cs).head? = some '/' ↔ cs.head? = some '/' := by
  cases cs with
  | nil => rfl
  | cons c cs =>
    rw [escape_cons]
    by_cases hc : c ∈ ['?', '*', '[', ']']
    · rw [if_pos hc]
      simp only [List.mem_cons, List.not_mem_nil, or_false] at hc
      rcases hc with rfl | rfl | rfl | rfl <;> simp
    · rw [if_neg hc]
      rfl

/-- A pattern starts at the top if the project root does, or if nothing stands in front of its
stars. -/
theorem head?_rootPattern {base root : String} (h : base ≠ "" ∨ Selection.trimRoot root ≠ "") :
    (Tree.rootPattern base (Selection.trimRoot root)).head? = some '/' ↔
      ScriptPath.isAbsolute base = true := by
  rw [rootPattern_eq, ScriptPath.isAbsolute, decide_eq_true_iff]
  by_cases hbase : base = ""
  · have hhead := head?_trimRoot root
    obtain ⟨c, cs, hcs⟩ := List.exists_cons_of_ne_nil fun hnil =>
      (h.resolve_left (not_not_intro hbase)) (String.toList_eq_nil_iff.mp hnil)
    rw [hcs] at hhead ⊢
    simpa [hbase] using hhead
  · obtain ⟨c, cs, hcs⟩ := List.exists_cons_of_ne_nil fun hnil =>
      hbase (String.toList_eq_nil_iff.mp hnil)
    obtain ⟨d, ds, hds⟩ : ∃ d ds, escape base.toList = d :: ds := by
      rw [hcs, escape_cons]
      split <;> exact ⟨_, _, rfl⟩
    have hhead : ((if base.isEmpty then [] else escape base.toList ++ ['/']) ++
        ((Selection.trimRoot root).toList ++ '/' :: ['*', '*', '/', '*', '.', 'g', 'd'])).head? =
        (escape base.toList).head? := by
      rw [if_neg (by simpa using hbase), hds]
      rfl
    rw [hhead, head?_escape]

theorem parts_rootPattern (base root : String) :
    parts '/' (Tree.rootPattern base root) =
      (if base.isEmpty then [] else (parts '/' base.toList).map escape) ++
        (parts '/' root.toList ++ [['*', '*'], ['*', '.', 'g', 'd']]) := by
  have htail : parts '/' ['*', '*', '/', '*', '.', 'g', 'd'] =
      [['*', '*'], ['*', '.', 'g', 'd']] := by decide
  rw [rootPattern_eq]
  cases base.isEmpty with
  | true => simp only [if_true, List.nil_append, parts_append, htail]
  | false =>
    rw [if_neg (by simp), if_neg (by simp), List.append_assoc, List.singleton_append, parts_append,
      parts_append, htail, parts_escape]

theorem exists_part_of_mem {ps : List (List Char)} {segments : List Segment}
    (h : ps.mapM Segment.parse = .ok segments) {s : Segment} (hs : s ∈ segments) :
    ∃ part ∈ ps, Segment.parse part = .ok s := by
  induction ps generalizing segments with
  | nil =>
    obtain rfl : [] = segments := Except.ok.inj h
    exact absurd hs List.not_mem_nil
  | cons p ps ih =>
    rw [List.mapM_cons] at h
    cases hp : Segment.parse p with
    | error e => exact absurd h (by simp [hp, bind, Except.bind])
    | ok t =>
      cases hps : ps.mapM Segment.parse with
      | error e => exact absurd h (by simp [hp, hps, bind, Except.bind])
      | ok ts =>
        obtain rfl : t :: ts = segments := by
          simpa [hp, hps, bind, Except.bind, pure, Except.pure] using h
        rcases List.mem_cons.mp hs with rfl | hs
        · exact ⟨p, List.mem_cons_self, hp⟩
        · obtain ⟨part, hpart, hparse⟩ := ih hps hs
          exact ⟨part, List.mem_cons_of_mem _ hpart, hparse⟩

theorem mapM_parse_escape (ps : List (List Char)) :
    (ps.map escape).mapM Segment.parse = .ok (ps.map Segment.exact) := by
  induction ps with
  | nil => rfl
  | cons p ps ih =>
    rw [List.map_cons, List.mapM_cons, Segment.parse_escape, ih]
    rfl

theorem Segment.parse_stars : Segment.parse ['*', '*'] = .ok .descend := by
  have htokens : tokens ['*', '*'] = .ok [.anyDepth] := by simp [tokens, tokensFrom, token?, stars?]
  rw [Segment.parse, htokens]
  rfl

theorem Segment.parse_script : Segment.parse ['*', '.', 'g', 'd'] = .ok scriptSegment := by
  have htokens : tokens ['*', '.', 'g', 'd'] = .ok (.anyText :: ['.', 'g', 'd'].map .char) := by
    simp [tokens, tokensFrom, token?, stars?]
  rw [Segment.parse, htokens]
  rfl

theorem mapM_parse_rootPattern (base root : String) :
    (parts '/' (Tree.rootPattern base root)).mapM Segment.parse =
      ((parts '/' root.toList).mapM Segment.parse).map fun segments =>
        (if base.isEmpty then [] else (parts '/' base.toList).map Segment.exact) ++
          (segments ++ [.descend, scriptSegment]) := by
  have htail : [['*', '*'], ['*', '.', 'g', 'd']].mapM Segment.parse =
      .ok [.descend, scriptSegment] := by
    rw [List.mapM_cons, List.mapM_cons, Segment.parse_stars, Segment.parse_script]
    rfl
  have hbase :
    (if base.isEmpty then [] else (parts '/' base.toList).map escape).mapM Segment.parse =
      .ok (if base.isEmpty then [] else (parts '/' base.toList).map Segment.exact) := by
    cases base.isEmpty with
    | true => rfl
    | false => exact mapM_parse_escape _
  rw [parts_rootPattern, List.mapM_append, List.mapM_append, hbase, htail]
  cases (parts '/' root.toList).mapM Segment.parse <;> rfl

theorem parse_eq_ok_iff {cs : List Char} {pattern : PathPattern} :
    PathPattern.parse cs = .ok pattern ↔
      (∃ ts, tokens cs = .ok ts) ∧ pattern.absolute = decide (cs.head? = some '/') ∧
        (parts '/' (if cs.head? = some '/' then cs.drop 1 else cs)).mapM Segment.parse =
          .ok pattern.segments := by
  obtain ⟨absolute, segments⟩ := pattern
  unfold PathPattern.parse
  cases htokens : tokens cs with
  | error e => simp [bind, Except.bind]
  | ok ts =>
    simp only [bind, Except.bind]
    cases (parts '/' (if cs.head? = some '/' then cs.drop 1 else cs)).mapM Segment.parse with
    | error e => simp
    | ok segments' => simp [pure, Except.pure, eq_comm]

end CastGuard.Glob
