/-
# `CastGuard.Proofs.ScriptPath.Spelling` — components of paths that are put together and taken apart

A path is a text, and what it means is its list of components.  Here the two meet: joining paths
joins their components (`components_join`), spelling out components gives a path with these
components (`components_ofComponents`), and the part of a path below another has the components that
remain (`components_below`).
-/
import CastGuard.Proofs.Text.Runs
import CastGuard.ScriptPath

namespace CastGuard

open Text

/-! ## Components of parts -/

namespace Component

/-- A text that stands for a name as a component of a path. -/
structure IsPart (part : List Char) : Prop where
  notEmpty : part ≠ []
  notHere : part ≠ ['.']
  notUp : part ≠ ['.', '.']
  noSlash : '/' ∉ part

instance (part : List Char) : Decidable (IsPart part) :=
  decidable_of_iff (part ≠ [] ∧ part ≠ ['.'] ∧ part ≠ ['.', '.'] ∧ '/' ∉ part)
    ⟨fun ⟨h₁, h₂, h₃, h₄⟩ => ⟨h₁, h₂, h₃, h₄⟩, fun h => ⟨h.notEmpty, h.notHere, h.notUp, h.noSlash⟩⟩

theorem ofInner_eq_none_iff {part : List Char} :
    ofInner part = none ↔ part = [] ∨ part = ['.'] := by
  unfold ofInner
  split
  · next h => simp [h]
  · next h => split <;> simp_all

theorem ofInner_of_isPart {part : List Char} (h : IsPart part) :
    ofInner part = some (.name (String.ofList part)) := by
  simp [ofInner, h.notEmpty, h.notHere, h.notUp]

theorem ofInner_toList {s : String} (h : s ≠ "..") :
    ofInner s.toList = none ∨ ofInner s.toList = some (.name s) := by
  have hup : s.toList ≠ ['.', '.'] := fun heq => h (String.toList_inj.mp heq)
  unfold ofInner
  split
  · exact .inl rfl
  · rw [String.ofList_toList]
    exact .inr rfl

theorem ofFirst_of_ne {part : List Char} (h : part ≠ ['.']) :
    ofFirst part = ofInner part := if_neg h

theorem here_notMem_ofInner (part : List Char) : .here ∉ (ofInner part).toList := by
  unfold ofInner
  split
  · simp
  · split <;> simp

/-- A component that can stand anywhere in a path. -/
def Inner (c : Component) : Prop := ofInner c.text.toList = some c ∧ '/' ∉ c.text.toList

theorem text_of_ofInner {part : List Char} {c : Component} (h : ofInner part = some c) :
    c.text.toList = part := by
  unfold ofInner at h
  split at h
  · exact absurd h (by simp)
  · split at h
    · next hup => rw [← Option.some.inj h, hup]; decide
    · rw [← Option.some.inj h, text, String.toList_ofList]

theorem inner_of_ofInner {part : List Char} {c : Component} (hslash : '/' ∉ part)
    (h : ofInner part = some c) : c.Inner := by
  have htext := text_of_ofInner h
  exact ⟨htext ▸ h, htext ▸ hslash⟩

theorem inner_name {s : String} (h : IsPart s.toList) : Inner (.name s) :=
  ⟨by rw [text, ofInner_of_isPart h, String.ofList_toList], h.noSlash⟩

theorem Inner.up_or_name {c : Component} (h : c.Inner) :
    c = .up ∨ ∃ s, c = .name s ∧ IsPart s.toList := by
  cases c with
  | root => exact absurd h.1 (by decide)
  | here => exact absurd h.1 (by decide)
  | up => exact .inl rfl
  | name s =>
    have hinner : ofInner s.toList = some (.name s) := h.1
    refine .inr ⟨s, rfl, ?_, ?_, ?_, h.2⟩
    all_goals
      intro heq
      rw [heq] at hinner
      exact absurd hinner (by simp [ofInner])

theorem Inner.ne {c : Component} (h : c.Inner) : c ≠ .root ∧ c ≠ .here := by
  constructor <;> rintro rfl <;> exact absurd h.1 (by decide)

theorem Inner.text_ne {c : Component} (h : c.Inner) :
    c.text.toList ≠ [] ∧ c.text.toList ≠ ['.'] := by
  rw [← not_or, ← ofInner_eq_none_iff, h.1]
  simp

end Component

namespace ScriptPath

/-- The components of a path behind another one. -/
def innerComponents (path : String) : List Component :=
  (parts '/' path.toList).filterMap Component.ofInner

theorem components_of_parts {path : String} {first : List Char} {rest : List (List Char)}
    (h : parts '/' path.toList = first :: rest) :
    components path =
      (if isAbsolute path then some .root else Component.ofFirst first).toList ++
        rest.filterMap Component.ofInner := by
  rw [components, steps, h]
  cases hfirst : (if isAbsolute path then some Component.root else Component.ofFirst first) <;>
    simp only [hfirst, List.filterMap_cons, List.filterMap_map, Option.toList] <;> rfl

theorem isAbsolute_iff {path : String} :
    isAbsolute path = true ↔ ∃ cs, path.toList = '/' :: cs := by
  unfold isAbsolute
  cases path.toList <;> simp

theorem components_absolute {path : String} (h : isAbsolute path = true) :
    ∃ rest, components path = .root :: rest := by
  obtain ⟨first, rest, hparts⟩ := List.exists_cons_of_ne_nil (parts_ne_nil '/' path.toList)
  exact ⟨rest.filterMap Component.ofInner, by simp [components_of_parts hparts, h]⟩

theorem isAbsolute_of_parts {path : String} {first : List Char} {rest : List (List Char)}
    (h : parts '/' path.toList = first :: rest) (hne : first ≠ []) : isAbsolute path = false := by
  rw [← Bool.not_eq_true, isAbsolute_iff]
  rintro ⟨cs, hcs⟩
  rw [hcs, parts, if_pos rfl] at h
  exact hne (List.cons.inj h).1.symm

@[simp] theorem components_empty : components "" = [] := by decide

/-! ## Joining -/

theorem components_slash {path dir : String} {front tail : List Char}
    (hpath : path.toList = front ++ '/' :: tail) (hdir : dir.toList = front ++ ['/']) :
    components path = components dir ++ (parts '/' tail).filterMap Component.ofInner := by
  obtain ⟨first, rest, hfront⟩ := List.exists_cons_of_ne_nil (parts_ne_nil '/' front)
  have hparts : parts '/' path.toList = first :: (rest ++ parts '/' tail) := by
    rw [hpath, parts_append, hfront, List.cons_append]
  have hparts' : parts '/' dir.toList = first :: (rest ++ [[]]) := by
    rw [hdir, parts_append, hfront, List.cons_append]
    rfl
  have hstart : isAbsolute path = isAbsolute dir := by
    rw [isAbsolute, isAbsolute, hpath, hdir]
    cases front <;> rfl
  rw [components_of_parts hparts, components_of_parts hparts', hstart, List.filterMap_append,
    List.filterMap_append, List.append_assoc, List.append_assoc]
  rfl

theorem components_append_slash {path dir : String} (hne : path ≠ "")
    (h : dir.toList = path.toList ++ ['/']) : components dir = components path := by
  obtain ⟨first, rest, hparts⟩ := List.exists_cons_of_ne_nil (parts_ne_nil '/' path.toList)
  have hparts' : parts '/' dir.toList = first :: (rest ++ [[]]) := by
    rw [h, parts_append, hparts, List.cons_append]
    rfl
  have hstart : isAbsolute dir = isAbsolute path := by
    rw [isAbsolute, isAbsolute, h]
    cases hcs : path.toList with
    | nil => exact absurd (String.toList_eq_nil_iff.mp hcs) hne
    | cons c cs => rfl
  rw [components_of_parts hparts', components_of_parts hparts, hstart, List.filterMap_append]
  simp [Component.ofInner]

theorem components_join {dir path : String} (hdir : dir ≠ "") (hpath : isAbsolute path = false) :
    components (join dir path) = components dir ++ innerComponents path := by
  unfold join
  rw [if_neg (by simp [hpath, hdir])]
  by_cases hlast : dir.toList.getLast? = some '/'
  · obtain ⟨front, hfront⟩ := List.getLast?_eq_some_iff.mp hlast
    rw [if_pos hlast]
    exact components_slash (by simp [hfront]) hfront
  · have hslash : (dir ++ "/").toList = dir.toList ++ ['/'] := String.toList_append
    have hfull : (dir ++ "/" ++ path).toList = dir.toList ++ '/' :: path.toList := by simp [hslash]
    rw [if_neg hlast, components_slash hfull hslash, components_append_slash hdir hslash]
    rfl

/-- A path without a dot in front keeps its components behind any directory. -/
theorem components_join_of_names {dir path : String} (hpath : isAbsolute path = false)
    (hhere : .here ∉ components path) :
      components (join dir path) = components dir ++ components path := by
  by_cases hdir : dir = ""
  · simp [hdir, join]
  · rw [components_join hdir hpath]
    obtain ⟨first, rest, hparts⟩ := List.exists_cons_of_ne_nil (parts_ne_nil '/' path.toList)
    have hcomponents := components_of_parts hparts
    rw [hpath, if_neg (by simp)] at hcomponents
    have hfirst : first ≠ ['.'] := by
      rintro rfl
      exact hhere (hcomponents ▸ List.mem_append_left _ (by decide))
    rw [hcomponents, Component.ofFirst_of_ne hfirst, innerComponents, hparts]
    cases hinner : Component.ofInner first <;> simp [hinner]

/-! ## Spelling components out -/

theorem filterMap_text {cs : List Component} (h : ∀ c ∈ cs, c.Inner) :
    (cs.map fun c => c.text.toList).filterMap Component.ofInner = cs := by
  induction cs with
  | nil => rfl
  | cons c cs ih =>
    obtain ⟨hc, hcs⟩ := List.forall_mem_cons.mp h
    rw [List.map_cons, List.filterMap_cons_some hc.1, ih hcs]

theorem toList_ofComponents {cs : List Component} (h : ∀ c ∈ cs, c.Inner) :
    (ofComponents cs).toList = joined '/' (cs.map fun c => c.text.toList) := by
  have hroot : cs ≠ [.root] := by
    rintro rfl
    exact (h _ List.mem_cons_self).ne.1 rfl
  rw [ofComponents, if_neg hroot, String.toList_ofList]

theorem components_ofComponents {cs : List Component} (h : ∀ c ∈ cs, c.Inner) :
    components (ofComponents cs) = cs := by
  cases cs with
  | nil => decide
  | cons c cs =>
    obtain ⟨hc, hcs⟩ := List.forall_mem_cons.mp h
    have hparts : parts '/' (ofComponents (c :: cs)).toList =
        c.text.toList :: cs.map fun c => c.text.toList := by
      rw [toList_ofComponents h, parts_joined (by simp)]
      · rfl
      · simpa using fun d hd => (h d (List.mem_cons.mpr hd)).2
    rw [components_of_parts hparts, isAbsolute_of_parts hparts hc.text_ne.1, filterMap_text hcs,
      Component.ofFirst_of_ne hc.text_ne.2, hc.1]
    rfl

/-! ## The part of a path below another -/

theorem filterMap_dropSteps (n : Nat) (ss : List (List Char × Option Component)) :
    (dropSteps n ss).filterMap Prod.snd = (ss.filterMap Prod.snd).drop n := by
  fun_induction dropSteps n ss with
  | case1 n => simp
  | case2 part rest ih => simpa using ih
  | case3 ss hne hsome => rfl
  | case4 n part rest ih => simpa using ih
  | case5 n part c rest ih => simpa using ih

theorem dropSteps_suffix (n : Nat) (ss : List (List Char × Option Component)) :
    dropSteps n ss <:+ ss := by
  fun_induction dropSteps n ss with
  | case1 n => exact List.suffix_refl _
  | case2 part rest ih => exact ih.trans (List.suffix_cons ..)
  | case3 ss hne hsome => exact List.suffix_refl _
  | case4 n part rest ih => exact ih.trans (List.suffix_cons ..)
  | case5 n part c rest ih => exact ih.trans (List.suffix_cons ..)

theorem isSome_head_dropSteps {n : Nat} {ss rest : List (List Char × Option Component)}
    {part : List Char} {c : Option Component} (h : dropSteps n ss = (part, c) :: rest) :
    c.isSome = true := by
  fun_induction dropSteps n ss with
  | case1 n => exact absurd h (by simp)
  | case2 part rest ih => exact ih h
  | case3 ss hne hsome =>
    cases c with
    | none => exact absurd h (hsome part rest)
    | some c => rfl
  | case4 n part rest ih => exact ih h
  | case5 n part c rest ih => exact ih h

/-- Inner parts in a row are a path with their components, if the first of them has one. -/
theorem components_joined {ps : List (List Char)} (hslash : ∀ p ∈ ps, '/' ∉ p)
    (hfirst : ∀ p ∈ ps.head?, (Component.ofInner p).isSome = true) :
    components (String.ofList (joined '/' ps)) = ps.filterMap Component.ofInner ∧
      isAbsolute (String.ofList (joined '/' ps)) = false := by
  cases ps with
  | nil => decide
  | cons p ps =>
    have hparts : parts '/' (String.ofList (joined '/' (p :: ps))).toList = p :: ps := by
      rw [String.toList_ofList, parts_joined (by simp) hslash]
    have hsome : (Component.ofInner p).isSome = true := hfirst p rfl
    have hne : p ≠ [] ∧ p ≠ ['.'] := by
      rw [← not_or, ← Component.ofInner_eq_none_iff]
      exact Option.isSome_iff_ne_none.mp hsome
    refine ⟨?_, isAbsolute_of_parts hparts hne.1⟩
    rw [components_of_parts hparts, isAbsolute_of_parts hparts hne.1, Component.ofFirst_of_ne hne.2]
    obtain ⟨c, hc⟩ := Option.isSome_iff_exists.mp hsome
    rw [List.filterMap_cons_some hc, hc]
    rfl

theorem exists_dropSteps_steps (n : Nat) (path : String) :
    ∃ qs : List (List Char), dropSteps (n + 1) (steps path) =
      qs.map (fun q => (q, Component.ofInner q)) ∧
      ∀ q ∈ qs, '/' ∉ q := by
  obtain ⟨first, ps, hparts⟩ := List.exists_cons_of_ne_nil (parts_ne_nil '/' path.toList)
  have hsuffix : dropSteps (n + 1) (steps path) <:+ ps.map fun p => (p, Component.ofInner p) := by
    rw [steps, hparts]
    dsimp only
    cases (if isAbsolute path then some Component.root else Component.ofFirst first) with
    | none =>
      rw [dropSteps]
      exact dropSteps_suffix (n + 1) _
    | some c =>
      rw [dropSteps]
      exact dropSteps_suffix n _
  obtain ⟨front, hfront⟩ := hsuffix
  obtain ⟨ps₁, qs, hps, -, hqs⟩ := List.map_eq_append_iff.mp hfront.symm
  refine ⟨qs, hqs.symm, fun q hq => ?_⟩
  have hpart : q ∈ parts '/' path.toList := by
    rw [hparts, hps]
    exact List.mem_cons_of_mem _ (List.mem_append_right _ hq)
  exact notMem_of_mem_parts '/' hpart

theorem components_below {top path : String} {cs : List Component} (htop : components top ≠ [])
    (h : components path = components top ++ cs) :
    ∃ rest, below? top path = some rest ∧ components rest = cs ∧ isAbsolute rest = false := by
  obtain ⟨n, hn⟩ : ∃ n, (components top).length = n + 1 :=
    Nat.exists_eq_succ_of_ne_zero (by simpa using htop)
  have hbelow : isBelow top path = true := by simp [isBelow, h]
  obtain ⟨qs, hqs, hslash⟩ := exists_dropSteps_steps n path
  have hfirst : ∀ q ∈ qs.head?, (Component.ofInner q).isSome = true := by
    intro q hq
    cases qs with
    | nil => exact absurd hq (by simp)
    | cons r qs =>
      obtain rfl : r = q := by simpa using hq
      exact isSome_head_dropSteps hqs
  obtain ⟨hcomponents, hrelative⟩ := components_joined hslash hfirst
  have htexts : (dropSteps (n + 1) (steps path)).map Prod.fst = qs := by
    rw [hqs, List.map_map]
    exact List.map_id _
  rw [below?, if_neg htop, if_pos hbelow, hn, htexts]
  refine ⟨_, rfl, ?_, hrelative⟩
  calc components (String.ofList (joined '/' qs))
      = qs.filterMap Component.ofInner := hcomponents
    _ = (dropSteps (n + 1) (steps path)).filterMap Prod.snd := by
      rw [hqs, List.filterMap_map]
      rfl
    _ = (components path).drop (components top).length := by
      rw [filterMap_dropSteps, hn]
      rfl
    _ = cs := by rw [h, List.drop_left]

end ScriptPath

end CastGuard
