/-
# `CastGuard.Proofs.Store.Project` — how a search comes to the project root

A search starts at the top of the disk or at the working directory and takes the components of the
project root one by one.  The path it has then put together is the plain spelling of these
components (`toList_walked`), so it leads to the place that the project root leads to, and the names
of what stands there, put behind it, lead to what they name (`reaches_root`).
-/
import CastGuard.Proofs.Glob.Search
import Mathlib.Data.List.Induction

namespace CastGuard

open Text Glob ScriptPath

/-! ## The components of the project root -/

namespace ScriptPath

theorem inner_of_mem_innerComponents (path : String) : ∀ c ∈ innerComponents path, c.Inner := by
  intro c hc
  obtain ⟨part, hpart, heq⟩ := List.mem_filterMap.mp hc
  exact Component.inner_of_ofInner (notMem_of_mem_parts '/' hpart) heq

theorem inner_names {names : List String} (h : ∀ n ∈ names, Component.IsPart n.toList) :
    ∀ c ∈ names.map Component.name, c.Inner := by
  intro c hc
  obtain ⟨n, hn, rfl⟩ := List.mem_map.mp hc
  exact Component.inner_name (h n hn)

theorem filter_components (path : String) :
    (components path).filter (· ≠ .here) =
      (if isAbsolute path then [.root] else []) ++ innerComponents path := by
  obtain ⟨first, rest, hparts⟩ := List.exists_cons_of_ne_nil (parts_ne_nil '/' path.toList)
  have hrest : (rest.filterMap Component.ofInner).filter (· ≠ .here) =
      rest.filterMap Component.ofInner := by
    refine List.filter_eq_self.mpr fun c hc => ?_
    obtain ⟨part, -, heq⟩ := List.mem_filterMap.mp hc
    have hne : c ≠ .here := by
      rintro rfl
      exact Component.here_notMem_ofInner part (by simp [heq])
    simpa using hne
  have hinner : innerComponents path =
      (Component.ofInner first).toList ++ rest.filterMap Component.ofInner := by
    rw [innerComponents, hparts]
    cases hfirst : Component.ofInner first <;> simp [hfirst]
  rw [components_of_parts hparts, List.filter_append, hrest, hinner, ← List.append_assoc]
  congr 1
  cases habsolute : isAbsolute path with
  | true =>
    obtain ⟨cs, hcs⟩ := isAbsolute_iff.mp habsolute
    rw [hcs, parts, if_pos rfl] at hparts
    rw [← (List.cons.inj hparts).1]
    rfl
  | false =>
    by_cases hdot : first = ['.']
    · rw [hdot]
      rfl
    · rw [if_neg (by simp), if_neg (by simp), Component.ofFirst_of_ne hdot, List.nil_append]
      refine List.filter_eq_self.mpr fun c hc => ?_
      have hne : c ≠ .here := by
        rintro rfl
        exact Component.here_notMem_ofInner first hc
      simpa using hne

def slashIf (fromTop : Bool) : List Char := if fromTop then ['/'] else []

theorem innerComponents_join (dir : String) {path : String} (hpath : isAbsolute path = false) :
    innerComponents (join dir path) = innerComponents dir ++ innerComponents path := by
  by_cases hdir : dir = ""
  · have hnone : innerComponents "" = [] := by decide
    simp [hdir, join, hnone]
  · unfold join
    rw [if_neg (by simp [hpath, hdir])]
    by_cases hlast : dir.toList.getLast? = some '/'
    · obtain ⟨front, hfront⟩ := List.getLast?_eq_some_iff.mp hlast
      have hparts : parts '/' (front ++ ['/']) = parts '/' front ++ [[]] :=
        parts_append '/' front []
      rw [if_pos hlast, innerComponents, String.toList_append, innerComponents,
        innerComponents, hfront,
        List.append_assoc, List.singleton_append, parts_append, hparts]
      simp [Component.ofInner]
    · rw [if_neg hlast, innerComponents, String.toList_append, String.toList_append,
        innerComponents,
        innerComponents, List.append_assoc]
      have hslash : "/".toList ++ path.toList = '/' :: path.toList := rfl
      rw [hslash, parts_append, List.filterMap_append]

end ScriptPath

/-! ## The path of a walk -/

namespace Glob

/-- The path that a walk has put together from components. -/
def walked (fromTop : Bool) (cs : List Component) : String :=
  (cs.map Component.text).foldl step (if fromTop then "/" else ".")

theorem walked_append (fromTop : Bool) (cs : List Component) (names : List String) :
    names.foldl step (walked fromTop cs) = walked fromTop (cs ++ names.map .name) := by
  simp [walked, List.map_map, Function.comp_def, Component.text]

section Walked

variable {fromTop : Bool} {cs : List Component}

theorem parts_spelled (hcs : ∀ c ∈ cs, c.Inner) (hne : cs ≠ []) :
    parts '/' (slashIf fromTop ++ joined '/' (cs.map fun c => c.text.toList)) =
      (if fromTop then [[]] else []) ++ cs.map fun c => c.text.toList := by
  have hjoined : parts '/' (joined '/' (cs.map fun c => c.text.toList)) =
      cs.map fun c => c.text.toList := by
    refine parts_joined (by simpa using hne) ?_
    simpa using fun c hc => (hcs c hc).2
  cases fromTop with
  | false => exact hjoined
  | true =>
    have hslash : slashIf true ++ joined '/' (cs.map fun c => c.text.toList) =
        '/' :: joined '/' (cs.map fun c => c.text.toList) := rfl
    rw [hslash, parts, if_pos rfl, hjoined]
    rfl

theorem getLast?_spelled (hcs : ∀ c ∈ cs, c.Inner) (hne : cs ≠ []) :
    (slashIf fromTop ++ joined '/' (cs.map fun c => c.text.toList)).getLast? ≠ some '/' := by
  intro hlast
  obtain ⟨front, hfront⟩ := List.getLast?_eq_some_iff.mp hlast
  obtain ⟨cs, c, rfl⟩ := (List.eq_nil_or_concat cs).resolve_left hne
  have hparts : parts '/' (slashIf fromTop ++ joined '/' _) = _ := parts_spelled hcs hne
  rw [hfront, parts_append] at hparts
  have hempty : some c.text.toList = some [] := by
    have hends := congrArg List.getLast? hparts
    simpa [parts] using hends.symm
  exact (hcs c (by simp)).text_ne.1 (Option.some.inj hempty)

theorem components_spelled {path : String} (hcs : ∀ c ∈ cs, c.Inner) (hne : cs ≠ [])
    (hpath : path.toList = slashIf fromTop ++ joined '/' (cs.map fun c => c.text.toList)) :
    components path = (if fromTop then [.root] else []) ++ cs := by
  cases fromTop with
  | false =>
    have hplain : path = ofComponents cs := by
      rw [← String.toList_inj, toList_ofComponents hcs]
      exact hpath
    rw [hplain, components_ofComponents hcs]
    rfl
  | true =>
    have hparts : parts '/' path.toList = [] :: cs.map fun c => c.text.toList :=
      hpath ▸ parts_spelled hcs hne
    have habsolute : isAbsolute path = true := isAbsolute_iff.mpr ⟨_, hpath⟩
    rw [components_of_parts hparts, habsolute, filterMap_text hcs]
    rfl

theorem isAbsolute_of_inner {c : Component} (h : c.Inner) : isAbsolute c.text = false := by
  rw [← Bool.not_eq_true, isAbsolute_iff]
  rintro ⟨rest, hrest⟩
  exact h.2 (hrest ▸ List.mem_cons_self)

theorem toList_walked (hcs : ∀ c ∈ cs, c.Inner) (hne : cs ≠ []) :
    (walked fromTop cs).toList =
      slashIf fromTop ++ joined '/' (cs.map fun c => c.text.toList) := by
  induction cs using List.reverseRecOn with
  | nil => exact absurd rfl hne
  | append_singleton cs c ih =>
    have hc : c.Inner := hcs c (by simp)
    have hstep : walked fromTop (cs ++ [c]) = step (walked fromTop cs) c.text := by simp [walked]
    rw [hstep]
    by_cases hnil : cs = []
    · subst hnil
      cases fromTop with
      | false => rfl
      | true =>
        have hfirst : step "/" c.text = "/" ++ c.text := by
          have hslash : same "/" "." = false := by decide
          simp [step, join, hslash, isAbsolute_of_inner hc]
        rw [show walked true [] = "/" from rfl, hfirst, String.toList_append]
        rfl
    · have hcs' : ∀ c ∈ cs, c.Inner := fun c hc => hcs c (List.mem_append_left _ hc)
      have htext := ih hcs' hnil
      have hcomponents := components_spelled hcs' hnil htext
      have hsame : same (walked fromTop cs) "." = false := by
        have hdot : components "." = [.here] := by decide
        rw [same, hcomponents, hdot, decide_eq_false_iff_not]
        intro heq
        have hhere : Component.here ∈ cs := by
          cases fromTop with
          | false => exact (show cs = [.here] from heq) ▸ List.mem_cons_self
          | true => exact absurd heq (by simp)
        exact (hcs' _ hhere).ne.2 rfl
      have hempty : walked fromTop cs ≠ "" := by
        intro heq
        rw [heq, components_empty] at hcomponents
        exact hnil (List.append_eq_nil_iff.mp hcomponents.symm).2
      have hlast : (walked fromTop cs).toList.getLast? ≠ some '/' := by
        rw [htext]
        exact getLast?_spelled hcs' hnil
      have hfull : step (walked fromTop cs) c.text = walked fromTop cs ++ "/" ++ c.text := by
        simp [step, join, hsame, isAbsolute_of_inner hc, hempty, hlast]
      rw [hfull, String.toList_append, String.toList_append, htext, List.map_append,
        joined_append (by simpa using hnil) (by simp), List.append_assoc, List.append_assoc]
      rfl

end Walked

end Glob

/-! ## The spelling of the project root -/

namespace Tree

variable (projectRoot : String)

theorem toList_base :
    (base projectRoot).toList = slashIf (isAbsolute projectRoot) ++
      joined '/' ((innerComponents projectRoot).map fun c => c.text.toList) := by
  have hinner := inner_of_mem_innerComponents projectRoot
  rw [base, filter_components]
  cases isAbsolute projectRoot with
  | false => exact toList_ofComponents hinner
  | true =>
    rw [if_pos rfl, List.singleton_append, ofComponents]
    cases hcs : innerComponents projectRoot with
    | nil => decide
    | cons c cs =>
      rw [if_neg (by simp), String.toList_ofList, List.map_cons, joined_cons (by simp)]
      rfl

theorem components_base :
    components (base projectRoot) =
      (if isAbsolute projectRoot then [.root] else []) ++ innerComponents projectRoot := by
  by_cases hnil : innerComponents projectRoot = []
  · have htext := toList_base projectRoot
    rw [hnil] at htext ⊢
    cases habsolute : isAbsolute projectRoot with
    | false =>
      have hempty : base projectRoot = "" := by
        rw [← String.toList_inj, htext, habsolute]
        rfl
      rw [hempty]
      rfl
    | true =>
      have hslash : base projectRoot = "/" := by
        rw [← String.toList_inj, htext, habsolute]
        rfl
      rw [hslash]
      decide
  · exact components_spelled (inner_of_mem_innerComponents projectRoot) hnil
      (toList_base projectRoot)

theorem isAbsolute_base : isAbsolute (base projectRoot) = isAbsolute projectRoot := by
  have hcomponents := components_base projectRoot
  cases habsolute : isAbsolute projectRoot with
  | true =>
    have htext := toList_base projectRoot
    rw [habsolute] at htext
    exact isAbsolute_iff.mpr ⟨_, htext⟩
  | false =>
    rw [← Bool.not_eq_true]
    intro hbase
    obtain ⟨rest, hrest⟩ := components_absolute hbase
    have hroot : .root ∈ innerComponents projectRoot := by
      rw [hcomponents, habsolute] at hrest
      exact (show innerComponents projectRoot = .root :: rest from hrest) ▸ List.mem_cons_self
    exact (inner_of_mem_innerComponents projectRoot _ hroot).ne.1 rfl

theorem base_eq_empty_iff :
    base projectRoot = "" ↔ isAbsolute projectRoot = false ∧ innerComponents projectRoot = [] := by
  constructor
  · intro hempty
    have hcomponents := components_base projectRoot
    rw [hempty, components_empty] at hcomponents
    obtain ⟨hroot, hinner⟩ := List.append_eq_nil_iff.mp hcomponents.symm
    exact ⟨by simpa using hroot, hinner⟩
  · rintro ⟨habsolute, hinner⟩
    rw [← String.toList_inj, toList_base, habsolute, hinner]
    rfl

theorem exact_parts_base {projectRoot : String} (habsolute : isAbsolute projectRoot = false) :
    (if (base projectRoot).isEmpty then [] else
      (parts '/' (base projectRoot).toList).map Segment.exact) =
        (innerComponents projectRoot).map fun c => .exact c.text.toList := by
  by_cases hnil : innerComponents projectRoot = []
  · rw [(base_eq_empty_iff projectRoot).mpr ⟨habsolute, hnil⟩, hnil]
    rfl
  · have hne : base projectRoot ≠ "" := fun hempty =>
      hnil ((base_eq_empty_iff projectRoot).mp hempty).2
    rw [if_neg (by simpa using hne), toList_base,
      parts_spelled (inner_of_mem_innerComponents projectRoot) hnil, habsolute]
    simp

end Tree

/-! ## Where walked paths lead -/

namespace Disk

def stepOf (c : Component) : Step := Step.ofName (.text c.text)

theorem stepOf_name {s : String} (h : Component.IsPart s.toList) :
    stepOf (.name s) = .into (.text s) := by
  have hhere : s ≠ "." := by
    rintro rfl
    exact h.notHere rfl
  have hup : s ≠ ".." := by
    rintro rfl
    exact h.notUp rfl
  simp [stepOf, Component.text, Step.ofName, hhere, hup]

section Walked

variable {d : Disk} {cwd : Place} {purpose : Purpose} {fromTop : Bool} {cs : List Component}

theorem stepsOf_texts (hcs : ∀ c ∈ cs, c.Inner) :
    stepsOf (cs.map fun c => c.text.toList) = cs.map stepOf := by
  have hkept : ∀ c ∈ cs, decide (Raw.text c.text ≠ .text "") = true := by
    intro c hc
    have hne := (hcs c hc).text_ne.1
    simpa [String.toList_eq_nil_iff] using hne
  simp only [stepsOf, List.map_map, Function.comp_def, String.ofList_toList]
  rw [List.filter_eq_self.mpr (by simpa using hkept), List.map_map]
  rfl

theorem ofPath_walked (hcs : ∀ c ∈ cs, c.Inner) (hne : cs ≠ []) :
    Route.ofPath (.text (walked fromTop cs)) = ⟨fromTop, cs.map stepOf⟩ := by
  have hlast : ∀ front : List (List Char),
      (front ++ cs.map fun c : Component => c.text.toList).getLast? ≠ some [] := by
    intro front
    obtain ⟨cs, c, rfl⟩ := (List.eq_nil_or_concat cs).resolve_left hne
    simpa using (hcs c (by simp)).text_ne.1
  rw [ofPath_text, toList_walked hcs hne, parts_spelled hcs hne,
    if_neg (fun h : _ ∧ _ => hlast _ h.2),
    List.append_nil, stepsOf_append, stepsOf_texts hcs]
  obtain ⟨c, cs, rfl⟩ := List.exists_cons_of_ne_nil hne
  have hc : c.text.toList ≠ [] := (hcs c List.mem_cons_self).text_ne.1
  cases fromTop with
  | false => simp [stepsOf, String.toList_eq_nil_iff.not.mp hc]
  | true => simp [stepsOf]

theorem leads_walked (hcs : ∀ c ∈ cs, c.Inner) {links : Nat} {dir p : Place} {e : Entry} :
    Leads d purpose links dir (Route.ofPath (.text (walked fromTop cs))).steps p e ↔
      Leads d purpose links dir (cs.map stepOf) p e := by
  by_cases hne : cs = []
  · subst hne
    have hdot : (Route.ofPath (.text ".")).steps = [.stay] := by decide
    have hslash : (Route.ofPath (.text "/")).steps = [.inside] := by decide
    cases fromTop with
    | false =>
      rw [show walked false [] = "." from rfl, hdot]
      refine ⟨fun h => ?_, .stay⟩
      cases h with
      | stay next => exact next
    | true =>
      rw [show walked true [] = "/" from rfl, hslash]
      refine ⟨fun h => ?_, .inside⟩
      cases h with
      | inside next => exact next
  · rw [ofPath_walked hcs hne]

theorem fromTop_walked (hcs : ∀ c ∈ cs, c.Inner) :
    (Route.ofPath (.text (walked fromTop cs))).fromTop = fromTop := by
  by_cases hne : cs = []
  · subst hne
    cases fromTop <;> decide
  · rw [ofPath_walked hcs hne]

theorem walked_ne_empty (hcs : ∀ c ∈ cs, c.Inner) : walked fromTop cs ≠ "" := by
  by_cases hne : cs = []
  · subst hne
    cases fromTop <;> decide
  · intro heq
    have htext : (walked fromTop cs).toList = _ := toList_walked hcs hne
    have hcomponents := components_spelled hcs hne htext
    rw [heq, components_empty] at hcomponents
    exact hne (List.append_eq_nil_iff.mp hcomponents.symm).2

theorem spot_walked (hcs : ∀ c ∈ cs, c.Inner) {p : Place} {e : Entry} :
    d.spot cwd purpose (walked fromTop cs) = .ok (.taken p e) ↔
      (isPath (walked fromTop cs) = true ∧ (walked fromTop cs).utf8ByteSize ≤ maxPathSize) ∧
        Leads d purpose maxLinks (if fromTop then [] else cwd) (cs.map stepOf) p e := by
  rw [spot_eq_taken_iff, follow_eq_taken_iff, fromTop_walked hcs, leads_walked hcs]
  exact ⟨fun h => ⟨⟨h.2.1, h.1 h.2.1⟩, h.2.2.2⟩,
    fun h => ⟨fun _ => h.1.2, h.1.1, walked_ne_empty hcs, h.2⟩⟩

theorem isPath_walked (hcs : ∀ c ∈ cs, c.Inner) (hnul : ∀ c ∈ cs, '\x00' ∉ c.text.toList) :
    isPath (walked fromTop cs) = true := by
  by_cases hne : cs = []
  · subst hne
    cases fromTop <;> decide
  · have hmem : '\x00' ∉ (walked fromTop cs).toList := by
      rw [toList_walked hcs hne]
      intro hmem
      rcases List.mem_append.mp hmem with hmem | hmem
      · cases fromTop <;> exact absurd hmem (by decide)
      · rcases mem_joined hmem with heq | ⟨part, hpart, hc⟩
        · exact absurd heq (by decide)
        · obtain ⟨c, hc', rfl⟩ := List.mem_map.mp hpart
          exact hnul c hc' hc
    simpa [isPath] using hmem

end Walked

/-! ## Where the project root leads -/

theorem trimmed_stepsOf (ps : List (List Char)) :
    Trimmed (stepsOf ps) ((ps.filterMap Component.ofInner).map stepOf) := by
  induction ps with
  | nil => exact .refl []
  | cons part ps ih =>
    have hcons : part ≠ [] →
        stepsOf (part :: ps) = Step.ofName (.text (String.ofList part)) :: stepsOf ps := by
      intro hne
      simp [stepsOf, hne, ← String.toList_inj]
    cases hinner : Component.ofInner part with
    | some c =>
      have htext := Component.text_of_ofInner hinner
      have hne : part ≠ [] := by
        rintro rfl
        exact absurd hinner (by simp [Component.ofInner])
      have hstep : stepOf c = Step.ofName (.text (String.ofList part)) := by
        rw [← htext, String.ofList_toList]
        rfl
      rw [hcons hne, List.filterMap_cons_some hinner, List.map_cons, hstep]
      exact .keep _ ih
    | none =>
      rw [List.filterMap_cons_none hinner]
      rcases Component.ofInner_eq_none_iff.mp hinner with rfl | rfl
      · exact ih
      · rw [hcons (by simp)]
        exact .stay ih

theorem fromTop_ofPath (path : String) : (Route.ofPath (.text path)).fromTop = isAbsolute path := by
  rw [ofPath_text, isAbsolute]
  cases path.toList with
  | nil => rfl
  | cons c cs =>
    obtain ⟨first, rest, hparts⟩ := List.exists_cons_of_ne_nil (parts_ne_nil '/' cs)
    by_cases hc : c = '/'
    · simp [parts, hc, hparts]
    · simp [parts, hc, hparts]

theorem isAbsolute_join_dot (dir : String) : isAbsolute (join dir ".") = isAbsolute dir := by
  by_cases hdir : dir = ""
  · rw [hdir]
    decide
  · obtain ⟨c, cs, hcs⟩ :=
      List.exists_cons_of_ne_nil (fun h => hdir (String.toList_eq_nil_iff.mp h))
    have hdot : isAbsolute "." = false := by decide
    unfold join
    rw [if_neg (by simp [hdot, hdir])]
    split <;> simp [isAbsolute, hcs]

theorem steps_join_dot (dir : String) :
    (Route.ofPath (.text (join dir "."))).steps = stepsOf (parts '/' (join dir ".").toList) := by
  have hlast : (parts '/' (join dir ".").toList).getLast? = some ['.'] := by
    by_cases hdir : dir = ""
    · rw [hdir]
      decide
    · obtain ⟨front, hfront⟩ := exists_toList_join hdir
      have hdot : ".".toList = ['.'] := by decide
      rw [hfront "." (by decide), hdot, parts_append]
      simp [parts]
  rw [ofPath_text, hlast]
  simp

theorem Houses.leads_base {d : Disk} {cwd r : Place} {projectRoot : String}
    (h : d.Houses cwd projectRoot r) :
    (∃ mode, Leads d .target maxLinks (if isAbsolute projectRoot then [] else cwd)
      ((innerComponents projectRoot).map stepOf) r (.dir mode)) ∧
      ∀ c ∈ innerComponents projectRoot, '\x00' ∉ c.text.toList := by
  obtain ⟨mode, hfollow⟩ := h.leads
  obtain ⟨hpath, -, hleads⟩ := follow_eq_taken_iff.mp hfollow
  have hinner : innerComponents (join projectRoot ".") = innerComponents projectRoot := by
    have hdot : innerComponents "." = [] := by decide
    rw [innerComponents_join projectRoot (by decide), hdot, List.append_nil]
  rw [fromTop_ofPath, isAbsolute_join_dot, steps_join_dot] at hleads
  refine ⟨⟨mode, ?_⟩, fun c hc hnul => ?_⟩
  · rw [← hinner]
    exact hleads.trim (trimmed_stepsOf _)
  · rw [← hinner] at hc
    obtain ⟨part, hpart, heq⟩ := List.mem_filterMap.mp hc
    rw [Component.text_of_ofInner heq] at hnul
    have hmem := mem_of_mem_part '/' hpart hnul
    exact absurd hpath (by simp [isPath, hmem])

/-! ## What is below the project root -/

/-- The path of everything in the project, as seen from the working directory, fits. -/
def Fits (d : Disk) (projectRoot : String) (r : Place) : Prop :=
  ∀ (names : List String) (e : Entry), d.get? (r ++ names.map .text) = some e →
    (join (Tree.base projectRoot) (ofComponents (names.map .name))).utf8ByteSize ≤ maxPathSize

theorem utf8ByteSize_le {s t : String} (h : s.toList <+: t.toList) :
    s.utf8ByteSize ≤ t.utf8ByteSize := by
  obtain ⟨rest, hrest⟩ := h
  have ht : t = s ++ String.ofList rest := by
    rw [← String.toList_inj, String.toList_append, String.toList_ofList, hrest]
  rw [ht, String.utf8ByteSize_append]
  omega

theorem walked_names (projectRoot : String) {names : List String} (hne : names ≠ [])
    (hnames : ∀ n ∈ names, Component.IsPart n.toList) :
    walked (isAbsolute projectRoot) (innerComponents projectRoot ++ names.map .name) =
      join (Tree.base projectRoot) (ofComponents (names.map .name)) := by
  have hbase := inner_of_mem_innerComponents projectRoot
  have hinner := inner_names hnames
  have hall : ∀ c ∈ innerComponents projectRoot ++ names.map .name, c.Inner := by
    intro c hc
    rcases List.mem_append.mp hc with hc | hc
    · exact hbase c hc
    · exact hinner c hc
  have hrelative : isAbsolute (ofComponents (names.map .name)) = false := by
    rw [← Bool.not_eq_true]
    intro habsolute
    obtain ⟨rest, hrest⟩ := components_absolute habsolute
    rw [components_ofComponents hinner] at hrest
    have hroot : .root ∈ names.map Component.name := hrest ▸ List.mem_cons_self
    exact absurd hroot (by simp)
  rw [← String.toList_inj, toList_walked hall (by simp [hne])]
  have htext := Tree.toList_base projectRoot
  by_cases hnil : innerComponents projectRoot = []
  · rw [hnil] at htext ⊢
    cases habsolute : isAbsolute projectRoot with
    | false =>
      have hempty : Tree.base projectRoot = "" :=
        (Tree.base_eq_empty_iff projectRoot).mpr ⟨habsolute, hnil⟩
      have hjoin : join "" (ofComponents (names.map .name)) = ofComponents (names.map .name) := by
        simp [join]
      rw [hempty, hjoin, toList_ofComponents hinner]
      rfl
    | true =>
      have hslash : Tree.base projectRoot = "/" := by
        rw [← String.toList_inj, htext, habsolute]
        rfl
      have hjoin : join "/" (ofComponents (names.map .name)) =
        "/" ++ ofComponents (names.map .name) := by
        simp [join, hrelative]
      rw [hslash, hjoin, String.toList_append, toList_ofComponents hinner]
      rfl
  · have hlast : (Tree.base projectRoot).toList.getLast? ≠ some '/' := by
      rw [htext]
      exact getLast?_spelled hbase hnil
    have hempty : Tree.base projectRoot ≠ "" := fun hempty =>
      hnil ((Tree.base_eq_empty_iff projectRoot).mp hempty).2
    have hjoin : join (Tree.base projectRoot) (ofComponents (names.map .name)) =
        Tree.base projectRoot ++ "/" ++ ofComponents (names.map .name) := by
      simp [join, hrelative, hempty, hlast]
    rw [hjoin, String.toList_append, String.toList_append, htext, toList_ofComponents hinner,
      List.map_append, joined_append (by simpa using hnil) (by simpa using hne), List.append_assoc,
      List.append_assoc]
    rfl

section Project

variable {d : Disk} {cwd r : Place} {projectRoot : String}

/-- The path to the project root, or a part of the way, fits if what is there does. -/
theorem Fits.size_prefix (hfits : d.Fits projectRoot r) {mode : Mode}
    (hr : d.get? r = some (.dir mode))
    {bs₁ bs₂ : List Component} (hbs : innerComponents projectRoot = bs₁ ++ bs₂) :
    (walked (isAbsolute projectRoot) bs₁).utf8ByteSize ≤ maxPathSize := by
  by_cases hne : bs₁ = []
  · subst hne
    cases isAbsolute projectRoot <;> decide
  · have hbase := inner_of_mem_innerComponents projectRoot
    have hfront :
      (walked (isAbsolute projectRoot) bs₁).toList <+: (Tree.base projectRoot).toList := by
      rw [Tree.toList_base, hbs,
        toList_walked (fun c hc => hbase c (hbs ▸ List.mem_append_left _ hc)) hne]
      by_cases hnil : bs₂ = []
      · simp [hnil]
      · rw [List.map_append, joined_append (by simpa using hne) (by simpa using hnil),
          ← List.append_assoc]
        exact List.prefix_append _ _
    have hjoin : (Tree.base projectRoot).toList <+: (join (Tree.base projectRoot) "").toList := by
      have hempty : isAbsolute "" = false := by decide
      unfold join
      split
      · next h =>
        obtain h : Tree.base projectRoot = "" := by simpa [hempty] using h
        simp [h]
      · split <;> simp
    exact Nat.le_trans (utf8ByteSize_le (hfront.trans hjoin))
      (hfits [] (.dir mode) (by simpa using hr))

theorem isPresent_iff {path : String} :
    d.isPresent cwd path = true ↔ ∃ p e, d.spot cwd .entry path = .ok (.taken p e) := by
  unfold isPresent
  split
  · next h => simp [h]
  · next h =>
    refine iff_of_false (by simp) ?_
    rintro ⟨p, e, heq⟩
    exact h p e heq

theorem isPresent_of_target {path : String} {p : Place} {e : Entry}
    (h : d.target cwd path = .ok (p, e)) : d.isPresent cwd path = true := by
  obtain ⟨hsize, hfollow⟩ := target_eq_ok_iff.mp h
  obtain ⟨hpath, hne, hleads⟩ := follow_eq_taken_iff.mp hfollow
  obtain ⟨q, f, hentry⟩ := hleads.exists_entry
  exact isPresent_iff.mpr
    ⟨q, f, spot_eq_taken_iff.mpr ⟨hsize, follow_eq_taken_iff.mpr ⟨hpath, hne, hentry⟩⟩⟩

theorem leads_names (hd : d.Sound) (h : d.Houses cwd projectRoot r) {purpose : Purpose}
    (hpurpose : purpose ≠ .make) {names : List String} (hne : names ≠ [])
    (hnames : ∀ n ∈ names, Component.IsPart n.toList) {q : Place} {e : Entry} :
    Leads d purpose maxLinks (if isAbsolute projectRoot then [] else cwd)
        ((innerComponents projectRoot ++ names.map Component.name).map stepOf) q e ↔
      q = r ++ names.map .text ∧ d.get? q = some e := by
  obtain ⟨⟨mode, hleads⟩, -⟩ := h.leads_base
  have hsteps : (names.map Component.name).map stepOf = (names.map Raw.text).map Step.into := by
    rw [List.map_map, List.map_map]
    exact List.map_congr_left fun n hn => stepOf_name (hnames n hn)
  have hinto : ∀ left, Leads d purpose left r ((names.map Raw.text).map .into) q e ↔
      q = r ++ names.map .text ∧ d.get? q = some e := fun left =>
    leads_into_iff hd h.linkless (by simpa using hne) (List.prefix_refl r)
  rw [List.map_append, hsteps]
  constructor
  · intro hall
    obtain ⟨mid, f, left, hfirst, hrest, -⟩ := hall.split (by simpa using hne)
    obtain ⟨rfl, -⟩ := hleads.unique hfirst
    exact (hinto left).mp hrest
  · intro hget
    exact hleads.append (fun left => (hinto left).mpr hget) (by simpa using hne) hpurpose

theorem inner_project (projectRoot : String) {names : List String}
    (hnames : ∀ n ∈ names, Component.IsPart n.toList) :
    ∀ c ∈ innerComponents projectRoot ++ names.map .name, c.Inner := by
  intro c hc
  rcases List.mem_append.mp hc with hc | hc
  · exact inner_of_mem_innerComponents projectRoot c hc
  · exact inner_names hnames c hc

theorem HasDir.start (hcwd : d.HasDir cwd) (fromTop : Bool) :
    d.HasDir (if fromTop then [] else cwd) := by
  split
  · exact ⟨_, rfl⟩
  · exact hcwd

variable (hd : d.Sound) (hcwd : d.HasDir cwd) (h : d.Houses cwd projectRoot r)
  (hfits : d.Fits projectRoot r)

include hd hcwd h

theorem Houses.hasDir : d.HasDir r := by
  obtain ⟨⟨mode, hleads⟩, -⟩ := h.leads_base
  exact ⟨mode, hleads.hasDir hd (hcwd.start _)⟩

include hfits

theorem exists_target_prefix {bs₁ bs₂ : List Component}
    (hbs : innerComponents projectRoot = bs₁ ++ bs₂) :
    ∃ mid mode left f, d.target cwd (walked (isAbsolute projectRoot) bs₁) = .ok (mid, .dir mode) ∧
      Leads d .target left mid (bs₂.map stepOf ++ [.stay]) r f := by
  obtain ⟨⟨mode, hleads⟩, hnul⟩ := h.leads_base
  obtain ⟨mode', hr⟩ := h.hasDir hd hcwd
  have hbase := inner_of_mem_innerComponents projectRoot
  rw [hbs] at hleads hnul hbase
  rw [List.map_append] at hleads
  have hstay : Leads d .target maxLinks (if isAbsolute projectRoot then [] else cwd)
      (bs₁.map stepOf ++ (bs₂.map stepOf ++ [.stay])) r ((d.get? r).getD (.dir newDirMode)) := by
    rw [← List.append_assoc]
    exact hleads.append (fun left => .stay .done) (by simp) (by simp)
  obtain ⟨mid, f, left, hfirst, hrest, hdir⟩ := hstay.split (by simp)
  obtain ⟨mode₁, hmid⟩ := hdir hd (hcwd.start _)
  have hf : f = .dir mode₁ := by
    have hsame := hfirst.getD_get?
    rw [hmid] at hsame
    exact hsame.symm
  refine ⟨mid, mode₁, left, _,
    target_eq_ok_iff_spot.mpr ((spot_walked fun c hc => ?_).mpr ⟨⟨?_, ?_⟩, ?_⟩),
    hrest⟩
  · exact hbase c (List.mem_append_left _ hc)
  · exact isPath_walked (fun c hc => hbase c (List.mem_append_left _ hc))
      fun c hc => hnul c (List.mem_append_left _ hc)
  · exact hfits.size_prefix hr hbs
  · exact hf ▸ hfirst

theorem passes_root {bs₁ bs₂ : List Component} (hbs : innerComponents projectRoot = bs₁ ++ bs₂) :
    Passes d cwd (walked (isAbsolute projectRoot) bs₁) (bs₂.map Component.text) := by
  induction bs₂ generalizing bs₁ with
  | nil => exact .done
  | cons c bs₂ ih =>
    have hbs' : innerComponents projectRoot = bs₁ ++ [c] ++ bs₂ := by simpa using hbs
    obtain ⟨mid, mode, left, f, htarget, hleads⟩ := exists_target_prefix hd hcwd h hfits hbs
    obtain ⟨mid', mode', -, -, htarget', -⟩ := exists_target_prefix hd hcwd h hfits hbs'
    have hstep : walked (isAbsolute projectRoot) (bs₁ ++ [c]) =
        step (walked (isAbsolute projectRoot) bs₁) c.text := by simp [walked]
    have hnext := ih hbs'
    rw [hstep] at htarget' hnext
    have hc : c.Inner := inner_of_mem_innerComponents projectRoot c (by simp [hbs])
    rcases hc.up_or_name with rfl | ⟨s, rfl, hs⟩
    · exact .up (by simp only [isDir, htarget]) hnext
    · rw [List.map_cons, List.cons_append, stepOf_name hs] at hleads
      obtain ⟨f', hget, hkind⟩ := hleads.kind_of_into (by simp)
      exact .into hs htarget hget hkind (isPresent_of_target htarget')
        (by simp only [isDir, htarget'])
        hnext

theorem fits_walked {names : List String} {e : Entry}
    (hget : d.get? (r ++ names.map .text) = some e) :
    isPath (walked (isAbsolute projectRoot) (innerComponents projectRoot ++ names.map .name)) =
      true ∧
      (walked (isAbsolute projectRoot)
        (innerComponents projectRoot ++ names.map .name)).utf8ByteSize ≤ maxPathSize := by
  obtain ⟨-, hnul⟩ := h.leads_base
  obtain ⟨mode, hr⟩ := h.hasDir hd hcwd
  have hnames := isPart_of_get? hd hget
  refine ⟨isPath_walked (inner_project projectRoot hnames) fun c hc => ?_, ?_⟩
  · rcases List.mem_append.mp hc with hc | hc
    · exact hnul c hc
    · obtain ⟨n, hn, rfl⟩ := List.mem_map.mp hc
      exact (hd.named _ _ hget (.text n) (List.mem_append_right _ (List.mem_map_of_mem hn))).noNul
  · by_cases hne : names = []
    · rw [hne, List.map_nil, List.append_nil]
      exact hfits.size_prefix hr (List.append_nil _).symm
    · rw [walked_names projectRoot hne hnames]
      exact hfits names e hget

theorem reaches_root :
    d.Reaches cwd (walked (isAbsolute projectRoot) (innerComponents projectRoot)) r := by
  refine ⟨fun names hnames q e => ?_, fun names hne hnames => ?_, h.linkless⟩
  · rw [walked_append, target_eq_ok_iff_spot, spot_walked (inner_project projectRoot hnames)]
    by_cases hne : names = []
    · obtain ⟨⟨mode, hleads⟩, -⟩ := h.leads_base
      have hr := hleads.hasDir hd (hcwd.start _)
      subst hne
      refine ⟨fun hspot => ?_, fun ⟨hq, hget⟩ => ⟨fits_walked hd hcwd h hfits (hq ▸ hget), ?_⟩⟩
      · obtain ⟨rfl, rfl⟩ := hleads.unique (by simpa using hspot.2)
        exact ⟨by simp, hr⟩
      · obtain rfl : q = r := by simpa using hq
        obtain rfl := Option.some.inj (hr.symm.trans hget)
        simpa using hleads
    · rw [leads_names hd h (by simp) hne hnames]
      exact ⟨And.right, fun hget => ⟨fits_walked hd hcwd h hfits (hget.1 ▸ hget.2), hget⟩⟩
  · have hentry : ∀ q e, Leads d .entry maxLinks _ _ q e ↔
      q = r ++ names.map .text ∧ d.get? q = some e :=
      fun q e => leads_names hd h (by simp) hne hnames
    rw [walked_append, isPresent_iff]
    simp only [spot_walked (inner_project projectRoot hnames), hentry]
    constructor
    · rintro ⟨q, e, -, rfl, hget⟩
      exact ⟨e, hget⟩
    · rintro ⟨e, hget⟩
      exact ⟨_, e, fits_walked hd hcwd h hfits hget, rfl, hget⟩

end Project

end Disk

end CastGuard
