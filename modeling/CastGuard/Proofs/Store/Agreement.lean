/-
# `CastGuard.Proofs.Store.Agreement` — a project in memory and on a disk

The two stores decide differently what a script is.  A disk is searched with a pattern, which asks
for something strictly below a scan root whose name ends in `.gd`.  Memory asks for the extension of
a path and for a scan root that the path starts with.  The rules differ on two kinds of paths
(`disputes`): the name `.gd` ends as asked and has no extension, and a scan root that is itself a
script starts with itself and is not below itself.

Otherwise stores of the two kinds that hold the same files find the same paths (`stores_agree_iff`).
-/
import CastGuard.Proofs.Run.Atomicity
import CastGuard.Proofs.Store.Found
import Mathlib.Data.List.Sort

namespace CastGuard

open Text ScriptPath

namespace ScriptPath

/-! ## Extensions -/

theorem extensionOf_append {name : String} {front ext : List Char} (hext : '.' ∉ ext)
    (hname : name.toList = front ++ '.' :: ext) :
    extensionOf name = if front = [] then none else some (String.ofList ext) := by
  have hparts : (parts '.' name.toList).reverse = ext :: (parts '.' front).reverse := by
    rw [hname, parts_append, parts_of_notMem hext]
    simp
  unfold extensionOf
  rw [hparts]
  by_cases hfront : front = []
  · subst hfront
    rfl
  · have hnil : (parts '.' front).reverse ≠ [] := by simpa using parts_ne_nil '.' front
    have hdot : (parts '.' front).reverse ≠ [[]] := by
      intro hone
      have hback := joined_parts '.' front
      rw [List.reverse_eq_iff.mp hone] at hback
      exact hfront hback.symm
    rw [if_neg hfront]
    split <;> simp_all

theorem extensionOf_of_notMem {name : String} (h : '.' ∉ name.toList) :
    extensionOf name = none := by
  rw [extensionOf, parts_of_notMem h]
  rfl

theorem extensionOf_eq_script_iff {name : String} :
    extensionOf name = some scriptExtension ↔ ['.', 'g', 'd'] <:+ name.toList ∧ name ≠ ".gd" := by
  have hscript : ∀ {front : List Char}, name.toList = front ++ '.' :: ['g', 'd'] →
      (name ≠ ".gd" ↔ front ≠ []) := by
    intro front hname
    have hgd : ".gd".toList = ['.', 'g', 'd'] := by decide
    rw [← String.toList_inj.ne, hname, hgd]
    simp
  constructor
  · intro h
    by_cases hdot : '.' ∈ name.toList
    · obtain ⟨front, c, ext, hname, hc, hext⟩ :=
        exists_last_not (p := fun c => c ≠ '.') hdot (by simp)
      obtain rfl : c = '.' := by simpa using hc
      rw [extensionOf_append (fun hmem => by simpa using hext _ hmem) hname] at h
      split at h
      · exact absurd h (by simp)
      · next hfront =>
        have hgd : ext = ['g', 'd'] := by
          rw [← String.toList_ofList (l := ext), Option.some.inj h]
          decide
        subst hgd
        exact ⟨⟨front, hname.symm⟩, (hscript hname).mpr hfront⟩
    · exact absurd h (by simp [extensionOf_of_notMem hdot])
  · rintro ⟨⟨front, hname⟩, hne⟩
    rw [extensionOf_append (by decide) hname.symm, if_neg ((hscript hname.symm).mp hne)]
    rfl

/-! ## Lists in order -/

theorem before_irrefl (p : String) : before p p = false := componentsBefore_irrefl _

theorem eq_of_ordered {ps qs : List String} (hps : ps.Pairwise fun p q => before p q = true)
    (hqs : qs.Pairwise fun p q => before p q = true) (h : ∀ p, p ∈ ps ↔ p ∈ qs) : ps = qs := by
  have hirrefl : ∀ p, ¬ before p p = true := fun p => by simp [before_irrefl]
  have : Std.Irrefl fun p q => before p q = true := ⟨hirrefl⟩
  have : Std.Antisymm fun p q => before p q = true :=
    ⟨fun p q hpq hqp => absurd (before_trans hpq hqp) (hirrefl p)⟩
  exact hps.eq_of_mem_iff hqs h

end ScriptPath

/-! ## What is in dispute -/

namespace Selection

/-- The name that a path ends in ends like a script's. -/
def EndsInScript (path : String) : Prop :=
  ∃ last, fileName? path = some last ∧ ['.', 'g', 'd'] <:+ last.toList

def isInside (root path : String) : Bool :=
  isBelow (trimRoot root) path && !same (trimRoot root) path

/-- Whether a path is that of a script for one of the two rules only. -/
def disputes (s : Selection) (path : String) : Bool :=
  if s.roots.any (isInside · path) then fileName? path = some ".gd"
  else extension? path = some scriptExtension && s.roots.any fun root => same (trimRoot root) path

theorem extension?_eq_script_iff {path : String} :
    extension? path = some scriptExtension ↔ EndsInScript path ∧ fileName? path ≠ some ".gd" := by
  rw [extension?, EndsInScript]
  cases fileName? path with
  | none => simp
  | some last => simp [extensionOf_eq_script_iff]

theorem isBelow_iff_isInside {root path : String} :
    isBelow (trimRoot root) path = true ↔
      isInside root path = true ∨ same (trimRoot root) path = true := by
  have hsame : same (trimRoot root) path = true → isBelow (trimRoot root) path = true := by
    intro h
    rw [isBelow, ScriptPath.same_iff.mp h]
    exact List.isPrefixOf_iff_prefix.mpr List.prefix_rfl
  rw [isInside]
  cases h : same (trimRoot root) path with
  | true => simp [hsame h]
  | false => simp

theorem covers_iff {s : Selection} {path : String} :
    s.covers path = true ↔ extension? path = some scriptExtension ∧
      ((∃ root ∈ s.roots, isInside root path = true) ∨
        ∃ root ∈ s.roots, same (trimRoot root) path = true) := by
  rw [covers, Bool.and_eq_true, decide_eq_true_eq, List.any_eq_true, ← exists_or]
  simp only [← and_or_left, ← isBelow_iff_isInside]

section Names

variable {root path : String} {names : List String}

theorem name_injective : Function.Injective Component.name := fun _ _ => Component.name.inj

theorem Plain.components_trimRoot (h : Plain root) :
    components (trimRoot root) = (rootNames root).map .name := by
  have hspelled : trimRoot root = ofComponents ((rootNames root).map .name) := by
    rw [← String.toList_inj, toList_ofComponents (inner_names h.isPart), rootNames, List.map_map,
      List.map_map]
    conv_lhs => rw [← joined_parts '/' (trimRoot root).toList]
    simp [Function.comp_def, Component.text]
  rw [hspelled, components_ofComponents (inner_names h.isPart)]

variable (hpath : components path = names.map .name)

include hpath

theorem Plain.isBelow_iff (h : Plain root) :
    isBelow (trimRoot root) path = true ↔ rootNames root <+: names := by
  rw [isBelow, h.components_trimRoot, hpath, List.isPrefixOf_iff_prefix,
    List.prefix_map_iff_of_injective name_injective]

theorem Plain.same_iff (h : Plain root) :
    same (trimRoot root) path = true ↔ rootNames root = names := by
  rw [ScriptPath.same_iff, h.components_trimRoot, hpath,
    (List.map_injective_iff.mpr name_injective).eq_iff]

theorem fileName?_of_names : fileName? path = names.getLast? := by
  rw [fileName?, hpath, List.getLast?_map]
  cases names.getLast? <;> rfl

theorem Plain.scriptBelow_iff (h : Plain root) :
    ScriptBelow root names ↔ isInside root path = true ∧ EndsInScript path := by
  rw [isInside, Bool.and_eq_true, Bool.not_eq_true', ← Bool.not_eq_true, h.isBelow_iff hpath,
    h.same_iff hpath, EndsInScript, fileName?_of_names hpath]
  constructor
  · rintro ⟨rest, last, hlast, rfl⟩
    exact ⟨⟨List.prefix_append _ _, by simp⟩, last, by simp [← List.append_assoc], hlast⟩
  · rintro ⟨⟨⟨tail, rfl⟩, hne⟩, last, hlast, hends⟩
    obtain ⟨rest, last', rfl⟩ :=
      (List.eq_nil_or_concat tail).resolve_left fun hnil => hne (by simp [hnil])
    obtain rfl : last' = last := by simpa [← List.append_assoc] using hlast
    exact ⟨rest, last', hends, by simp⟩

/-- The rules agree on a path unless it is in dispute. -/
theorem scriptBelow_iff_covers {s : Selection} (hroots : ∀ root ∈ s.roots, Plain root) :
    ((∃ root ∈ s.roots, ScriptBelow root names) ↔ s.covers path = true) ↔
      s.disputes path = false := by
  have hpattern : (∃ root ∈ s.roots, ScriptBelow root names) ↔
      (∃ root ∈ s.roots, isInside root path = true) ∧ EndsInScript path := by
    constructor
    · rintro ⟨root, hroot, hscript⟩
      obtain ⟨hinside, hends⟩ := ((hroots root hroot).scriptBelow_iff hpath).mp hscript
      exact ⟨⟨root, hroot, hinside⟩, hends⟩
    · rintro ⟨⟨root, hroot, hinside⟩, hends⟩
      exact ⟨root, hroot, ((hroots root hroot).scriptBelow_iff hpath).mpr ⟨hinside, hends⟩⟩
  rw [hpattern, covers_iff, disputes]
  by_cases hinside : ∃ root ∈ s.roots, isInside root path = true
  · -- both look at the name only
    have hbare : fileName? path = some ".gd" → EndsInScript path := fun h => ⟨_, h, by decide⟩
    rw [if_pos (List.any_eq_true.mpr hinside), extension?_eq_script_iff, decide_eq_false_iff_not]
    simp only [hinside, true_and, true_or, and_true]
    exact ⟨fun hsame hgd => (hsame.mp (hbare hgd)).2 hgd,
      fun hgd => ⟨fun hends => ⟨hends, hgd⟩, And.left⟩⟩
  · -- the pattern does not ask for the path
    rw [if_neg (hinside ∘ List.any_eq_true.mp)]
    simp only [hinside, false_and, false_or, false_iff, ← Bool.not_eq_true, Bool.and_eq_true,
      decide_eq_true_eq, List.any_eq_true]

end Names

end Selection

/-! ## Both stores -/

/-- Memory holds the files of a project, under the plain spellings of their names. -/
def Memory.Mirrors (mem : Memory) (d : Disk) (r : Place) : Prop :=
  ∀ path, path ∈ mem.scripts.paths ↔ ∃ names : List String,
    path = ofComponents (names.map .name) ∧
      ∃ c mode, d.get? (r ++ names.map .text) = some (.file c mode)

open Disk Selection

/-- Both stores search a project without links below plain scan roots.  They find the same scripts
exactly if no path that is not left out is in dispute. -/
theorem stores_agree_iff {d : Disk} (hd : d.Sound) (hdistinct : d.Distinct) {cwd r : Place}
    (hcwd : d.HasDir cwd) {projectRoot : String} (hhouses : d.Houses cwd projectRoot r)
    (hfits : d.Fits projectRoot r) {mem : Memory} (hbuilt : mem.Built) (hmirrors : mem.Mirrors d r)
    {s : Selection} (hroots : ∀ root ∈ s.roots, Plain root) :
    ∃ onDisk inMemory,
      ((Tree.store (fileSystem cwd) projectRoot).discover s).run d = (.ok onDisk, d) ∧
      (Memory.store.discover s).run mem = (.ok inMemory, mem) ∧
      (onDisk = inMemory ↔
        ∀ path ∈ mem.scripts.paths, s.excludes path = false → s.disputes path = false) := by
  obtain ⟨found, hfound, hordered, hmem⟩ := answers_found hd hdistinct hcwd hhouses hfits hroots
  refine ⟨found, mem.discover s, hfound.bind (answers_pure _), rfl, ?_⟩
  -- on a path of a file, each search follows its rule
  have hrules : ∀ path ∈ mem.scripts.paths, s.excludes path = false →
      ((path ∈ found ↔ path ∈ mem.discover s) ↔ s.disputes path = false) := by
    intro path hpath hkept
    obtain ⟨names, rfl, hfile⟩ := (hmirrors path).mp hpath
    obtain ⟨c, mode, hget⟩ := hfile
    have hcomponents : ∀ {names : List String} {e : Entry}, d.get? (r ++ names.map .text) = some e →
        components (ofComponents (names.map .name)) = names.map .name := fun hget =>
      components_ofComponents (inner_names (isPart_of_get? hd hget))
    have hpattern : ofComponents (names.map .name) ∈ found ↔
        ∃ root ∈ s.roots, ScriptBelow root names := by
      rw [hmem]
      constructor
      · rintro ⟨-, names', hscript, heq, c', mode', hget'⟩
        have hnames : names.map Component.name = names'.map .name := by
          rw [← hcomponents hget, heq, hcomponents hget']
        rwa [List.map_injective_iff.mpr name_injective hnames]
      · exact fun hscript => ⟨hkept, names, hscript, rfl, c, mode, hget⟩
    have hcovers : ofComponents (names.map .name) ∈ mem.discover s ↔
        s.covers (ofComponents (names.map .name)) = true := by
      simp [Memory.discover, hpath, selects, hkept]
    rw [hpattern, hcovers]
    exact scriptBelow_iff_covers (hcomponents hget) hroots
  constructor
  · intro hsame path hpath hkept
    exact (hrules path hpath hkept).mp (by rw [hsame])
  · intro hagree
    refine eq_of_ordered hordered (hbuilt.ordered.filter _) fun path => ?_
    by_cases hboth : path ∈ mem.scripts.paths ∧ s.excludes path = false
    · exact (hrules path hboth.1 hboth.2).mpr (hagree path hboth.1 hboth.2)
    · refine iff_of_false (fun hpath => hboth ?_) (fun hpath => hboth ?_)
      · obtain ⟨hkept, names, -, heq, hfile⟩ := (hmem path).mp hpath
        exact ⟨(hmirrors path).mpr ⟨names, heq, hfile⟩, hkept⟩
      · obtain ⟨hpath, hselects⟩ := List.mem_filter.mp hpath
        exact ⟨hpath, by simpa using (Bool.and_eq_true_iff.mp hselects).2⟩

/-! ## A project with scripts in dispute -/

section Disputed

/-- The names of a place, as seen from another one. -/
def namesFrom (r p : Place) : List String := (p.drop r.length).filterMap Raw.text?

theorem namesFrom_append (r : Place) (names : List String) :
    namesFrom r (r ++ names.map .text) = names := by
  rw [namesFrom, List.drop_left, List.filterMap_map]
  exact List.filterMap_some

theorem Disk.Fits.of_entries {d : Disk} {r : Place} (hr : r ≠ []) {projectRoot : String}
    (h : ∀ e ∈ d.entries, (join (Tree.base projectRoot)
      (ofComponents ((namesFrom r e.1).map .name))).utf8ByteSize ≤ maxPathSize) :
    d.Fits projectRoot r := by
  intro names e hget
  have hsize := h _ (get?_cons_mem hget (by simp [hr]))
  rwa [namesFrom_append] at hsize

theorem Memory.Mirrors.of_entries {mem : Memory} {d : Disk} (hdistinct : d.Distinct) {r : Place}
    (hr : r ≠ [])
    (hfiles : ∀ e ∈ d.entries, r <+: e.1 → e.2.kind = .other →
      ofComponents ((namesFrom r e.1).map .name) ∈ mem.scripts.paths)
    (hpaths : ∀ path ∈ mem.scripts.paths, ∃ e ∈ d.entries, e.2.kind = .other ∧
      e.1 = r ++ (namesFrom r e.1).map .text ∧ path = ofComponents ((namesFrom r e.1).map .name)) :
    mem.Mirrors d r := by
  intro path
  constructor
  · intro hpath
    obtain ⟨⟨p, e⟩, hmem, hkind, hplace, rfl⟩ := hpaths path hpath
    cases e with
    | file c mode =>
      refine ⟨_, rfl, c, mode, ?_⟩
      rw [← hplace]
      exact get?_of_mem hdistinct (fun hnil =>
        hr (List.append_eq_nil_iff.mp (hplace.symm.trans hnil)).1) hmem
    | dir mode => exact absurd hkind (by simp [Entry.kind])
    | link target => exact absurd hkind (by simp [Entry.kind])
  · rintro ⟨names, rfl, c, mode, hget⟩
    have hpath := hfiles _ (get?_cons_mem hget (by simp [hr])) (List.prefix_append _ _) rfl
    rwa [namesFrom_append] at hpath

/-- A project with a script that has no name but its extension, and one at its top. -/
def mixed : Disk :=
  ⟨[([.text "w"], .dir 0o755), ([.text "w", .text "core"], .dir 0o755),
    ([.text "w", .text "core", .text "a.gd"], .file (.text "") 0o644),
    ([.text "w", .text "core", .text "notes.txt"], .file (.text "") 0o644),
    ([.text "w", .text "core", .text "old"], .dir 0o755),
    ([.text "w", .text "core", .text "old", .text ".gd"], .file (.text "") 0o644),
    ([.text "w", .text "core", .text "old", .text ".b.gd"], .file (.text "") 0o644),
    ([.text "w", .text "tool.gd"], .file (.text "") 0o644)]⟩

/-- The files of `mixed` in memory. -/
def mixedMemory : Memory :=
  .ofList [("core/a.gd", ""), ("core/notes.txt", ""), ("core/old/.gd", ""), ("core/old/.b.gd", ""),
    ("tool.gd", "")]

theorem sound_mixed : mixed.Sound := .of_entries (by decide +kernel) (by decide +kernel)

theorem distinct_mixed : mixed.Distinct := by
  unfold Distinct
  decide +kernel

theorem houses_mixed : mixed.Houses [.text "w"] "." [.text "w"] := by
  refine ⟨⟨0o755, by rfl⟩, fun q t _ hget => ?_⟩
  have hmem := get?_cons_mem hget (by rintro rfl; exact absurd hget (by simp [get?]))
  have hkinds : ∀ e ∈ mixed.entries, e.2.kind ≠ .link := by decide +kernel
  exact hkinds _ hmem rfl

theorem mirrors_mixed : mixedMemory.Mirrors mixed [.text "w"] :=
  .of_entries distinct_mixed (by simp) (by decide +kernel) (by decide +kernel)

theorem stores_agree_iff_mixed :
    mixed.Sound ∧ mixed.Distinct ∧ mixed.HasDir [.text "w"] ∧
    mixed.Houses [.text "w"] "." [.text "w"] ∧ mixed.Fits "." [.text "w"] ∧ mixedMemory.Built ∧
    mixedMemory.Mirrors mixed [.text "w"] ∧ (∀ root ∈ ["/core/", "core/old"], Plain root) ∧
    ((Tree.store (fileSystem [.text "w"]) ".").discover
      ⟨["/core/", "core/old"], ["OLD/.g"], []⟩).run mixed =
      (.ok ["core/a.gd", "core/old/.b.gd"], mixed) := by
  have hcwd : mixed.HasDir [.text "w"] := ⟨0o755, by decide +kernel⟩
  have hfits : mixed.Fits "." [.text "w"] := .of_entries (by simp) (by decide +kernel)
  have hbuilt : mixedMemory.Built := .ofList _
  have hroots : ∀ root ∈ ["/core/", "core/old"], Plain root := by decide +kernel
  refine ⟨sound_mixed, distinct_mixed, hcwd, houses_mixed, hfits, hbuilt, mirrors_mixed, hroots, ?_⟩
  obtain ⟨onDisk, inMemory, hdisk, hmemory, hagree⟩ :=
    stores_agree_iff sound_mixed distinct_mixed hcwd
    houses_mixed hfits hbuilt mirrors_mixed (s := ⟨["/core/", "core/old"], ["OLD/.g"], []⟩) hroots
  have hfound : ((Memory.store.discover ⟨["/core/", "core/old"], ["OLD/.g"], []⟩).run
      mixedMemory).1.toOption = some ["core/a.gd", "core/old/.b.gd"] := by decide +kernel
  rw [hmemory] at hfound
  rw [hdisk, hagree.mpr (by decide +kernel), Option.some.inj hfound]

/-- A disk finds a script that has no name but its extension, and memory a scan root that is a
script. -/
theorem stores_disagree :
    mixedMemory.Mirrors mixed [.text "w"] ∧ mixed.Houses [.text "w"] "." [.text "w"] ∧
    (∀ root ∈ ["core", "tool.gd"], Plain root) ∧
    (((Tree.store (fileSystem [.text "w"]) ".").discover ⟨["core", "tool.gd"], [], []⟩).run
      mixed).1.toOption = some ["core/a.gd", "core/old/.b.gd", "core/old/.gd"] ∧
    ((Memory.store.discover ⟨["core", "tool.gd"], [], []⟩).run mixedMemory).1.toOption =
      some ["core/a.gd", "core/old/.b.gd", "tool.gd"] := by
  refine ⟨mirrors_mixed, houses_mixed, ?_, ?_, ?_⟩
  · decide +kernel
  · decide +kernel
  · decide +kernel

end Disputed

end CastGuard
