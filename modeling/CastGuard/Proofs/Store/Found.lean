/-
# `CastGuard.Proofs.Store.Found` — exactly the scripts that a search finds

In a project without links whose paths fit, a search below plain scan roots succeeds, and it finds
the files strictly below a scan root whose names end like a script's and which are not left out
(`answers_found`).  They come out under the plain spelling of their names.
-/
import CastGuard.Proofs.Store.Discovery
import CastGuard.Proofs.Store.Project

namespace CastGuard

open Text Glob ScriptPath

/-! ## Plain scan roots -/

namespace Selection

-- irreducible, since the names of a root that is not known can be unfolded for long
@[irreducible] def rootNames (root : String) : List String :=
  (parts '/' (trimRoot root).toList).map String.ofList

/-- The names that lead to a script strictly below a scan root. -/
def ScriptBelow (root : String) (names : List String) : Prop :=
  ∃ rest last, ['.', 'g', 'd'] <:+ last.toList ∧ names = rootNames root ++ (rest ++ [last])

theorem ScriptBelow.ne_nil {root : String} {names : List String} (h : ScriptBelow root names) :
    names ≠ [] := by
  obtain ⟨rest, last, -, rfl⟩ := h
  simp

/-- A scan root that is made of names without wildcards. -/
def Plain (root : String) : Prop :=
  ∀ part ∈ parts '/' (trimRoot root).toList,
    Component.IsPart part ∧ ∀ c ∈ part, c ∉ ['?', '*', '[', ']']

instance (root : String) : Decidable (Plain root) :=
  decidable_of_iff ((parts '/' (trimRoot root).toList).all fun part =>
      decide (Component.IsPart part) && part.all fun c => decide (c ∉ ['?', '*', '[', ']']))
    (by simp only [Plain, List.all_eq_true, Bool.and_eq_true, decide_eq_true_eq])

theorem Plain.isPart {root : String} (h : Plain root) :
    ∀ n ∈ rootNames root, Component.IsPart n.toList := by
  intro n hn
  rw [rootNames] at hn
  obtain ⟨part, hpart, rfl⟩ := List.mem_map.mp hn
  rw [String.toList_ofList]
  exact (h part hpart).1

theorem Plain.ne_empty {root : String} (h : Plain root) : trimRoot root ≠ "" := by
  intro hempty
  have hpart : [] ∈ parts '/' (trimRoot root).toList := by
    rw [hempty]
    decide
  exact (h [] hpart).1.notEmpty rfl

end Selection

namespace Glob

open Selection

theorem escape_of_plain {cs : List Char} (h : ∀ c ∈ cs, c ∉ ['?', '*', '[', ']']) :
    escape cs = cs := by
  induction cs with
  | nil => rfl
  | cons c cs ih =>
    obtain ⟨hc, hcs⟩ := List.forall_mem_cons.mp h
    rw [escape_cons, if_neg hc, ih hcs]
    rfl

theorem exact_of_plain {part : List Char} (h : ∀ c ∈ part, c ∉ ['?', '*', '[', ']']) :
    Segment.exact part = .literal (String.ofList part) := by
  rcases Segment.exact_cases part with heq | ⟨-, c, hc, hspecial⟩
  · exact heq
  · exact absurd hspecial (h c hc)

theorem mapM_parse_plain {root : String} (h : Plain root) :
    (parts '/' (trimRoot root).toList).mapM Segment.parse =
      .ok ((rootNames root).map .literal) := by
  have hescape : (parts '/' (trimRoot root).toList).map escape =
    parts '/' (trimRoot root).toList := by
    refine (List.map_congr_left fun part hpart => ?_).trans (List.map_id _)
    exact escape_of_plain (h part hpart).2
  have hexact : (parts '/' (trimRoot root).toList).map Segment.exact =
      (rootNames root).map .literal := by
    rw [rootNames, List.map_map]
    exact List.map_congr_left fun part hpart => exact_of_plain (h part hpart).2
  rw [← hexact, ← mapM_parse_escape, hescape]

theorem exists_tokens_tail (position : Nat) (before : Option Char) :
    ∃ ts, tokensFrom position before ('/' :: ['*', '*', '/', '*', '.', 'g', 'd']) = .ok ts := by
  simp [tokensFrom, token?, stars?]

theorem exists_tokens_rootPattern (base : String) {root : String} (h : Plain root) :
    ∃ ts, tokens (Tree.rootPattern base (trimRoot root)) = .ok ts := by
  have hroot : escape (trimRoot root).toList = (trimRoot root).toList := by
    refine escape_of_plain fun c hc => ?_
    rcases mem_parts_of_mem '/' hc with rfl | ⟨part, hpart, hmem⟩
    · decide
    · exact (h part hpart).2 c hmem
  have hfront : (if base.isEmpty then [] else escape base.toList ++ ['/']) =
      escape (if base.isEmpty then [] else base.toList ++ ['/']) := by
    split
    · rfl
    · rw [escape_append]
      rfl
  rw [rootPattern_eq, hfront, ← hroot, ← List.append_assoc, ← escape_append, tokens]
  obtain ⟨position, before, hread⟩ := tokensFrom_escape
    ((if base.isEmpty then [] else base.toList ++ ['/']) ++ (trimRoot root).toList)
    ('/' :: ['*', '*', '/', '*', '.', 'g', 'd']) 0 none
  obtain ⟨ts, hts⟩ := exists_tokens_tail position before
  rw [hread, hts]
  exact ⟨_, rfl⟩

/-- The components of a pattern that lead to the project root. -/
inductive LeadsIn (projectRoot : String) : List Segment → Prop
  | parts : LeadsIn projectRoot ((innerComponents projectRoot).map fun c => .exact c.text.toList)
  | top (absolute : isAbsolute projectRoot = true) (empty : innerComponents projectRoot = []) :
      LeadsIn projectRoot [.literal ""]

theorem mapM_parse_absolute {projectRoot root : String} {rest : List Char} (h : Plain root)
    (habsolute : isAbsolute projectRoot = true)
    (hrest : Tree.rootPattern (Tree.base projectRoot) (trimRoot root) = '/' :: rest) :
    (parts '/' rest).mapM Segment.parse =
      .ok ((parts '/' (joined '/' ((innerComponents projectRoot).map fun c => c.text.toList))).map
        Segment.exact ++ ((rootNames root).map .literal ++ [.descend, scriptSegment])) := by
  have hsegments := mapM_parse_rootPattern (Tree.base projectRoot) (trimRoot root)
  have hbase := Tree.toList_base projectRoot
  rw [habsolute] at hbase
  have hslash : (Tree.base projectRoot).toList =
    '/' :: joined '/' ((innerComponents projectRoot).map fun c => c.text.toList) := hbase
  have hne : Tree.base projectRoot ≠ "" := fun hempty => by
    simpa [habsolute] using ((Tree.base_eq_empty_iff projectRoot).mp hempty).1
  have hempty : Segment.parse [] = .ok (.literal "") := Segment.parse_escape []
  -- both sides have an empty component in front
  rw [mapM_parse_plain h, hrest, parts, if_pos rfl, List.mapM_cons, hempty,
    if_neg (by simpa using hne),
    hslash, parts, if_pos rfl] at hsegments
  cases hread : (parts '/' rest).mapM Segment.parse with
  | error e => exact absurd hsegments (by simp [hread, bind, Except.bind, Except.map])
  | ok segments =>
    rw [hread] at hsegments
    exact congrArg _ (List.cons.inj (Except.ok.inj hsegments)).2

theorem parse_rootPattern (projectRoot : String) {root : String} (h : Plain root) :
    ∃ lead, LeadsIn projectRoot lead ∧
      PathPattern.parse (Tree.rootPattern (Tree.base projectRoot) (trimRoot root)) =
        .ok ⟨isAbsolute projectRoot,
          lead ++ ((rootNames root).map .literal ++ [.descend, scriptSegment])⟩ := by
  have htokens := exists_tokens_rootPattern (Tree.base projectRoot) h
  have hhead : (Tree.rootPattern (Tree.base projectRoot) (trimRoot root)).head? = some '/' ↔
      isAbsolute projectRoot = true := by
    rw [head?_rootPattern (.inr h.ne_empty), Tree.isAbsolute_base]
  cases habsolute : isAbsolute projectRoot with
  | false =>
    have hrelative : ¬ (Tree.rootPattern (Tree.base projectRoot) (trimRoot root)).head? =
      some '/' := by
      simp [hhead, habsolute]
    refine ⟨_, .parts, parse_eq_ok_iff.mpr ⟨htokens, by simp [hrelative], ?_⟩⟩
    rw [if_neg hrelative, mapM_parse_rootPattern, mapM_parse_plain h,
      Tree.exact_parts_base habsolute]
    rfl
  | true =>
    obtain ⟨rest, hrest⟩ := List.head?_eq_some_iff.mp (hhead.mpr habsolute)
    have hparse : ∀ lead, (parts '/' (joined '/' ((innerComponents projectRoot).map fun c =>
        c.text.toList))).map Segment.exact = lead →
        PathPattern.parse (Tree.rootPattern (Tree.base projectRoot) (trimRoot root)) =
          .ok ⟨true, lead ++ ((rootNames root).map .literal ++ [.descend, scriptSegment])⟩ := by
      rintro _ rfl
      refine parse_eq_ok_iff.mpr ⟨htokens, by simp [hrest], ?_⟩
      rw [hrest]
      exact mapM_parse_absolute h habsolute hrest
    by_cases hnil : innerComponents projectRoot = []
    · refine ⟨_, .top habsolute hnil, hparse _ ?_⟩
      rw [hnil]
      decide
    · refine ⟨_, .parts, hparse _ ?_⟩
      rw [parts_joined (by simpa using hnil), List.map_map]
      · rfl
      · simpa using fun c hc => (inner_of_mem_innerComponents projectRoot c hc).2

end Glob

/-! ## Paths as seen from the project root -/

namespace ScriptPath

theorem steps_walked {fromTop : Bool} {cs : List Component} (hcs : ∀ c ∈ cs, c.Inner)
    (hne : cs ≠ []) :
    steps (walked fromTop cs) =
      ((if fromTop then [Component.root] else []) ++ cs).map fun c => (c.text.toList, some c) := by
  have htext : (walked fromTop cs).toList = _ := toList_walked hcs hne
  have hparts : parts '/' (walked fromTop cs).toList = _ := htext ▸ parts_spelled hcs hne
  have hinner : ∀ cs : List Component, (∀ c ∈ cs, c.Inner) →
      (cs.map fun c => c.text.toList).map (fun q => (q, Component.ofInner q)) =
        cs.map fun c => (c.text.toList, some c) := by
    intro cs hcs
    rw [List.map_map]
    exact List.map_congr_left fun c hc => by rw [Function.comp_apply, (hcs c hc).1]
  cases fromTop with
  | true =>
    have habsolute : isAbsolute (walked true cs) = true := isAbsolute_iff.mpr ⟨_, htext⟩
    have hcons : parts '/' (walked true cs).toList = [] :: cs.map fun c => c.text.toList := hparts
    rw [steps, hcons]
    simp only [habsolute, if_true, hinner cs hcs]
    rfl
  | false =>
    obtain ⟨c, cs, rfl⟩ := List.exists_cons_of_ne_nil hne
    obtain ⟨hc, hcs⟩ := List.forall_mem_cons.mp hcs
    have hcons : parts '/' (walked false (c :: cs)).toList =
        c.text.toList :: cs.map fun c => c.text.toList := hparts
    have habsolute := isAbsolute_of_parts hcons hc.text_ne.1
    rw [steps, hcons]
    simp only [habsolute, hinner cs hcs, Component.ofFirst_of_ne hc.text_ne.2, hc.1]
    rfl

theorem dropSteps_map (n : Nat) (cs : List Component) :
    dropSteps n (cs.map fun c => (c.text.toList, some c)) =
      (cs.drop n).map fun c => (c.text.toList, some c) := by
  induction cs generalizing n with
  | nil => cases n <;> simp [dropSteps]
  | cons c cs ih =>
    cases n with
    | zero => simp [dropSteps]
    | succ n => simpa [dropSteps] using ih n

theorem relative_walked (projectRoot : String) {names : List String} (hne : names ≠ [])
    (hnames : ∀ n ∈ names, Component.IsPart n.toList) :
    Tree.relative (Tree.base projectRoot)
        (walked (isAbsolute projectRoot) (innerComponents projectRoot ++ names.map .name)) =
      ofComponents (names.map .name) := by
  have hall : ∀ c ∈ innerComponents projectRoot ++ _, c.Inner :=
    Disk.inner_project projectRoot hnames
  have hwalked :
    (walked (isAbsolute projectRoot) (innerComponents projectRoot ++ names.map .name)).toList =
      _ := toList_walked hall (by simp [hne])
  have hbase := Tree.components_base projectRoot
  by_cases hempty : Tree.base projectRoot = ""
  · obtain ⟨habsolute, hinner⟩ := (Tree.base_eq_empty_iff projectRoot).mp hempty
    rw [Tree.relative, below?, if_pos (by rw [hempty, components_empty]), Option.getD_some,
      ← String.toList_inj, hwalked, toList_ofComponents (inner_names hnames), habsolute, hinner]
    rfl
  · have hsome : components (Tree.base projectRoot) ≠ [] := by
      rw [hbase]
      intro hnil
      obtain ⟨hroot, hinner⟩ := List.append_eq_nil_iff.mp hnil
      exact hempty ((Tree.base_eq_empty_iff projectRoot).mpr ⟨by simpa using hroot, hinner⟩)
    have hbelow : isBelow (Tree.base projectRoot)
        (walked (isAbsolute projectRoot) (innerComponents projectRoot ++ names.map .name)) =
          true := by
      rw [isBelow, components_spelled hall (by simp [hne]) hwalked, hbase, ← List.append_assoc]
      simp
    rw [Tree.relative, below?, if_neg hsome, if_pos hbelow, Option.getD_some,
      steps_walked hall (by simp [hne]), dropSteps_map, hbase, ← List.append_assoc, List.drop_left,
      ← String.toList_inj, toList_ofComponents (inner_names hnames),
      String.toList_ofList, List.map_map]
    rfl

end ScriptPath

/-! ## The search below one scan root -/

namespace Disk

open Selection

theorem length_le_joined {ps : List (List Char)} (h : ∀ p ∈ ps, p ≠ []) :
    ps.length ≤ (joined '/' ps).length := by
  induction ps with
  | nil => exact Nat.le_refl _
  | cons p ps ih =>
    obtain ⟨hp, hps⟩ := List.forall_mem_cons.mp h
    have hpos := List.length_pos_iff.mpr hp
    cases ps with
    | nil => exact hpos
    | cons q ps =>
      have hrest := ih hps
      rw [joined_cons (by simp)]
      simp only [List.length_append, List.length_cons] at hrest ⊢
      omega

theorem length_le_utf8ByteSize (cs : List Char) : cs.length ≤ (String.ofList cs).utf8ByteSize := by
  induction cs with
  | nil => exact Nat.zero_le _
  | cons c cs ih =>
    have hpos := c.utf8Size_pos
    rw [String.ofList_cons, String.utf8ByteSize_append, String.utf8ByteSize_singleton,
      List.length_cons]
    omega

theorem length_le_walked (fromTop : Bool) {cs : List Component} (hcs : ∀ c ∈ cs, c.Inner) :
    cs.length ≤ (walked fromTop cs).utf8ByteSize := by
  by_cases hne : cs = []
  · simp [hne]
  · have hjoined : cs.length ≤ (joined '/' (cs.map fun c => c.text.toList)).length := by
      have hlength : (cs.map fun c => c.text.toList).length ≤ _ :=
        length_le_joined (by simpa using fun c hc => (hcs c hc).text_ne.1)
      simpa using hlength
    have hsize := length_le_utf8ByteSize (walked fromTop cs).toList
    rw [String.ofList_toList, toList_walked hcs hne, List.length_append] at hsize
    omega

section Found

variable {d : Disk} {cwd r : Place} {projectRoot : String} (hd : d.Sound) (hdistinct : d.Distinct)
  (hcwd : d.HasDir cwd) (h : d.Houses cwd projectRoot r) (hfits : d.Fits projectRoot r)

include hd hdistinct hcwd h hfits

theorem LeadsIn.yields {lead rest : List Segment} (hlead : LeadsIn projectRoot lead)
    {Q : String → Prop}
    (hrest : d.Yields (walk (fileSystem cwd) rest
      ⟨walked (isAbsolute projectRoot) (innerComponents projectRoot),
        d.isDir cwd (walked (isAbsolute projectRoot) (innerComponents projectRoot))⟩) Q) :
    d.Yields (walk (fileSystem cwd) (lead ++ rest)
      ⟨walked (isAbsolute projectRoot) [],
        d.isDir cwd (walked (isAbsolute projectRoot) [])⟩) Q := by
  cases hlead with
  | parts =>
    have hpasses : Passes d cwd (walked (isAbsolute projectRoot) []) _ :=
      passes_root hd hcwd h hfits rfl
    have hall := hpasses.yields hdistinct hrest
    rwa [List.map_map] at hall
  | top absolute empty =>
    obtain ⟨mid, mode, -, -, htarget, -⟩ :=
      exists_target_prefix hd hcwd h hfits (List.nil_append _).symm
    rw [absolute, empty] at hrest
    rw [absolute] at htarget ⊢
    exact yields_literal (by decide) (isPresent_of_target htarget) hrest

theorem yields_paths {root : String} (hroot : Plain root) {lead : List Segment}
    (hlead : LeadsIn projectRoot lead) :
    d.Yields (PathPattern.paths (fileSystem cwd)
        ⟨isAbsolute projectRoot,
          lead ++ ((rootNames root).map .literal ++ [.descend, scriptSegment])⟩)
      fun y => ∃ names, ScriptBelow root names ∧ (∃ e, d.get? (r ++ names.map .text) = some e) ∧
        y = walked (isAbsolute projectRoot) (innerComponents projectRoot ++ names.map .name) := by
  have hnames := (reaches_root hd hcwd h hfits).yields_names hd hdistinct hroot.isPart
  have hwalk := LeadsIn.yields hd hdistinct hcwd h hfits hlead hnames
  refine Yields.after (hwalk.congr fun y => ?_) (answers_nodeAt _)
  simp only [walked_append]
  constructor
  · rintro ⟨names, last, -, hlast, hget, rfl⟩
    exact ⟨_, ⟨names, last, hlast, rfl⟩, hget, rfl⟩
  · rintro ⟨_, ⟨names, last, hlast, rfl⟩, ⟨e, hget⟩, rfl⟩
    refine ⟨names, last, ?_, hlast, ⟨e, hget⟩, rfl⟩
    -- a path that fits is not deeper than the search
    have hsize := (fits_walked hd hcwd h hfits hget).2
    have hlength := length_le_walked (isAbsolute projectRoot)
      (inner_project projectRoot (isPart_of_get? hd hget))
    simp only [List.length_append, List.length_map, List.length_singleton] at hlength
    have hmax : maxPathSize < maxDepth := by decide
    omega

theorem answers_scriptsBelow_plain {root : String} (hroot : Plain root) :
    ∃ found, d.Answers (Tree.scriptsBelow (fileSystem cwd) (Tree.base projectRoot) (trimRoot root))
        (.ok found) ∧
      ∀ p, p ∈ found ↔ ∃ names, ScriptBelow root names ∧ p = ofComponents (names.map .name) ∧
        ∃ c mode, d.get? (r ++ names.map .text) = some (.file c mode) := by
  obtain ⟨lead, hlead, hparse⟩ := parse_rootPattern projectRoot hroot
  obtain ⟨paths, hpaths, hmem⟩ := yields_paths hd hdistinct hcwd h hfits hroot hlead
  have hreach := reaches_root hd hcwd h hfits
  unfold Tree.scriptsBelow
  rw [hparse]
  refine ⟨_, hpaths.bind ((answers_filesAmong cwd paths).bind (answers_pure _)), fun p => ?_⟩
  simp only [List.mem_map, List.mem_filter, hmem]
  constructor
  · rintro ⟨full, ⟨⟨names, hscript, ⟨e, hget⟩, rfl⟩, hfile⟩, rfl⟩
    have hnames := isPart_of_get? hd hget
    rw [← walked_append] at hfile
    exact ⟨names, hscript, relative_walked projectRoot hscript.ne_nil hnames,
      (hreach.isFile_iff hnames).mp hfile⟩
  · rintro ⟨names, hscript, rfl, c, mode, hget⟩
    have hnames := isPart_of_get? hd hget
    refine ⟨_, ⟨⟨names, hscript, ⟨_, hget⟩, rfl⟩, ?_⟩,
      relative_walked projectRoot hscript.ne_nil hnames⟩
    rw [← walked_append]
    exact (hreach.isFile_iff hnames).mpr ⟨c, mode, hget⟩

theorem answers_scriptsBelowAll_plain {roots : List String} (hroots : ∀ root ∈ roots, Plain root) :
    ∃ found, d.Answers (Tree.scriptsBelowAll (fileSystem cwd) (Tree.base projectRoot) roots)
        (.ok found) ∧
      ∀ p, p ∈ found ↔ ∃ names, (∃ root ∈ roots, ScriptBelow root names) ∧
        p = ofComponents (names.map .name) ∧
        ∃ c mode, d.get? (r ++ names.map .text) = some (.file c mode) := by
  induction roots with
  | nil => exact ⟨[], answers_pure _, by simp⟩
  | cons root roots ih =>
    obtain ⟨hroot, hroots⟩ := List.forall_mem_cons.mp hroots
    obtain ⟨found, hfound, hmem⟩ := answers_scriptsBelow_plain hd hdistinct hcwd h hfits hroot
    obtain ⟨more, hmore, hmem'⟩ := ih hroots
    unfold Tree.scriptsBelowAll
    refine ⟨found ++ more, hfound.bind (hmore.bind (answers_pure _)), fun p => ?_⟩
    rw [List.mem_append, hmem, hmem']
    constructor
    · rintro (⟨names, hscript, hp⟩ | ⟨names, ⟨root', hroot', hscript⟩, hp⟩)
      · exact ⟨names, ⟨root, List.mem_cons_self, hscript⟩, hp⟩
      · exact ⟨names, ⟨root', List.mem_cons_of_mem _ hroot', hscript⟩, hp⟩
    · rintro ⟨names, ⟨root', hroot', hscript⟩, hp⟩
      rcases List.mem_cons.mp hroot' with rfl | hroot'
      · exact .inl ⟨names, hscript, hp⟩
      · exact .inr ⟨names, ⟨root', hroot', hscript⟩, hp⟩

/-- A search below plain scan roots succeeds.  It finds the scripts strictly below a scan root that
are not left out, in order and each once. -/
theorem answers_found {s : Selection} (hroots : ∀ root ∈ s.roots, Plain root) :
    ∃ found, d.Answers (Tree.discover (fileSystem cwd) projectRoot s) (.ok found) ∧
      (found.Pairwise fun p q => ScriptPath.before p q = true) ∧
      ∀ p, p ∈ found ↔ s.excludes p = false ∧ ∃ names, (∃ root ∈ s.roots, ScriptBelow root names) ∧
        p = ofComponents (names.map .name) ∧
        ∃ c mode, d.get? (r ++ names.map .text) = some (.file c mode) := by
  obtain ⟨found, hfound, hmem⟩ := answers_scriptsBelowAll_plain hd hdistinct hcwd h hfits hroots
  unfold Tree.discover
  refine ⟨_, hfound.bind (answers_pure _), Tree.ordered_inOrder _, fun p => ?_⟩
  have hspelled : ∀ q ∈ found, ofComponents (components q) = q := by
    intro q hq
    obtain ⟨names, -, rfl, c, mode, hget⟩ := (hmem q).mp hq
    rw [components_ofComponents (inner_names (isPart_of_get? hd hget))]
  have hkept : p ∈ found.filter (fun path => !s.excludes path) ↔
      s.excludes p = false ∧ p ∈ found := by
    rw [List.mem_filter, and_comm, Bool.not_eq_true']
  rw [← hmem p, ← hkept]
  refine ⟨Tree.mem_of_mem_inOrder, fun hp => ?_⟩
  -- paths that are spelled plainly are the same only if they are equal
  obtain ⟨q, hq, hsame⟩ := Tree.exists_same_of_mem hp
  have hq' := (List.mem_filter.mp (Tree.mem_of_mem_inOrder hq)).1
  rw [← hspelled p (List.mem_filter.mp hp).1, ← ScriptPath.same_iff.mp hsame, hspelled q hq']
  exact hq

end Found

end Disk

end CastGuard
