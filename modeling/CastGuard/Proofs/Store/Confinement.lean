/-
# `CastGuard.Proofs.Store.Confinement` — scripts are found inside the project

The pattern for a scan root is put together as text from the project root and the scan root, so what
it finds lies below the project root only if neither piece leads away from it.  A scan root leads
away in two ways.  It can climb: two dots do, and so does a component with wildcards that starts
with a dot and matches two dots.  And it can be empty under a project root that is itself empty, in
which case the pattern starts with a slash and the search starts at the top of the disk.

Otherwise (`Staying`) every script that is found is named by a relative path whose components are
names, and a run reads and writes inside the project only, as long as no link leads out of it
(`run_stays_inside`).
-/
import CastGuard.Proofs.Run.Preview
import CastGuard.Proofs.Store.Project

namespace CastGuard

open Text Glob ScriptPath

/-! ## Components along a walk -/

namespace Glob

/-- A walk has come to a path with some components, or is still where it started. -/
def At (cs : List Component) (path : String) : Prop :=
  components path = cs ∨ cs = [] ∧ components path = [.here]

theorem isAbsolute_of_notMem {path : String} (h : '/' ∉ path.toList) : isAbsolute path = false := by
  rw [← Bool.not_eq_true, isAbsolute_iff]
  rintro ⟨cs, hcs⟩
  exact h (hcs ▸ List.mem_cons_self)

theorem innerComponents_of_notMem {path : String} (h : '/' ∉ path.toList) :
    innerComponents path = (Component.ofInner path.toList).toList := by
  rw [innerComponents, parts_of_notMem h]
  cases hpart : Component.ofInner path.toList <;> simp [hpart]

theorem at_part {part : String} (hslash : '/' ∉ part.toList) :
    At (Component.ofInner part.toList).toList part := by
  have hcomponents : components part = (Component.ofFirst part.toList).toList := by
    rw [components_of_parts (parts_of_notMem hslash), isAbsolute_of_notMem hslash]
    simp
  by_cases hdot : part.toList = ['.']
  · refine .inr ?_
    rw [hcomponents, hdot]
    decide
  · exact .inl (by rw [hcomponents, Component.ofFirst_of_ne hdot])

theorem At.step {cs : List Component} {path part : String} (h : At cs path) (hcs : .here ∉ cs)
    (hslash : '/' ∉ part.toList) :
    At (cs ++ (Component.ofInner part.toList).toList) (step path part) := by
  have hstart : ∀ {cs : List Component}, cs = [] →
      At (cs ++ (Component.ofInner part.toList).toList) part := by
    rintro _ rfl
    exact at_part hslash
  unfold Glob.step
  by_cases hsame : same path "." = true
  · have hhere : components path = [.here] := (decide_eq_true_iff.mp hsame).trans (by decide)
    rw [if_pos hsame]
    rcases h with h | ⟨h, -⟩
    · exact absurd (h ▸ hhere ▸ List.mem_cons_self) hcs
    · exact hstart h
  · have hpath : components path = cs := h.resolve_right fun h =>
      hsame (decide_eq_true (h.2.trans (by decide)))
    rw [if_neg hsame]
    by_cases hempty : path = ""
    · have hjoin : join path part = part := by simp [join, hempty]
      rw [hjoin]
      exact hstart (by rw [← hpath, hempty, components_empty])
    · refine .inl ?_
      rw [components_join hempty (isAbsolute_of_notMem hslash), hpath,
        innerComponents_of_notMem hslash]

theorem At.join_dot {cs : List Component} {path : String} (h : At cs path) :
    At cs (join path ".") := by
  by_cases hempty : path = ""
  · have hcs : cs = [] := by
      rcases h with h | h
      · rw [← h, hempty, components_empty]
      · exact h.1
    exact .inr ⟨hcs, by rw [hempty]; decide⟩
  · have hdot : innerComponents "." = [] := by decide
    have hjoin : components (join path ".") = components path := by
      rw [components_join hempty (by decide), hdot, List.append_nil]
    rwa [At, hjoin]

theorem Matches.exact {ps : List (List Char)} {rest : List Segment} {cs : List Component}
    {p q : String} (h : Matches (ps.map Segment.exact ++ rest) p q) (hp : At cs p)
    (hcs : .here ∉ cs)
    (hslash : ∀ part ∈ ps, '/' ∉ part) :
    ∃ p', At (cs ++ ps.filterMap Component.ofInner) p' ∧ Matches rest p' q := by
  induction ps generalizing cs p with
  | nil => exact ⟨p, by simpa using hp, h⟩
  | cons part ps ih =>
    obtain ⟨hpart, hps⟩ := List.forall_mem_cons.mp hslash
    have hfilter : cs ++ (part :: ps).filterMap Component.ofInner =
        cs ++ (Component.ofInner part).toList ++ ps.filterMap Component.ofInner := by
      cases hinner : Component.ofInner part <;> simp [hinner]
    have hnext : ∀ {name : String}, name.toList = part →
        Matches (ps.map Segment.exact ++ rest) (Glob.step p name) q →
        ∃ p', At (cs ++ (part :: ps).filterMap Component.ofInner) p' ∧ Matches rest p' q := by
      rintro name rfl next
      rw [hfilter]
      refine ih next (hp.step hcs hpart) ?_ hps
      simp only [List.mem_append, not_or]
      exact ⟨hcs, Component.here_notMem_ofInner _⟩
    rw [List.map_cons, List.cons_append] at h
    rcases Segment.exact_cases part with heq | ⟨heq, hspecial⟩
    · rw [heq] at h
      cases h with
      | literal next => exact hnext String.toList_ofList next
    · rw [heq] at h
      cases h with
      | dots asked next => exact absurd (dotNames_exact hspecial ▸ asked) List.not_mem_nil
      | name proper fits next => exact hnext (matchesName_exact.mp fits) next

/-! ## Components that stay below -/

/-- Whether a component of a pattern can lead to the parent of a directory. -/
def Segment.climbs : Segment → Bool
  | .literal name => name = ".."
  | .wildcard ts => ".." ∈ dotNames ts
  | .descend => false

/-- Components that lead to directories and names below only. -/
structure Stays (segments : List Segment) : Prop where
  level : ∀ s ∈ segments, s.climbs = false
  single : ∀ name, .literal name ∈ segments → '/' ∉ name.toList

theorem Stays.tail {s : Segment} {segments : List Segment} (h : Stays (s :: segments)) :
    Stays segments :=
  ⟨fun t ht => h.level t (List.mem_cons_of_mem _ ht),
    fun name hname => h.single name (List.mem_cons_of_mem _ hname)⟩

theorem getLast?_cons_cases {s t : Segment} {segments : List Segment}
    (h : (s :: segments).getLast? = some t) :
      segments = [] ∧ s = t ∨ segments.getLast? = some t := by
  cases segments with
  | nil => exact .inl ⟨rfl, by simpa using h⟩
  | cons u segments => exact .inr (by rwa [List.getLast?_cons_cons] at h)

section Inside

variable {top : List Component} {names : List String}

theorem At.into (htop : .here ∉ top) {path name : String} (h : At (top ++ names.map .name) path)
    (hname : (Raw.text name).IsName) :
      At (top ++ (names ++ [name]).map .name) (Glob.step path name) := by
  have hstep := h.step (by simpa using htop) hname.isPart.noSlash
  rw [Component.ofInner_of_isPart hname.isPart, String.ofList_toList] at hstep
  simpa using hstep

/-- What matches components that stay below, the last of which asks for scripts, is below. -/
theorem Matches.inside (htop : .here ∉ top) {segments : List Segment} {p q : String}
    (h : Matches segments p q) (hp : At (top ++ names.map .name) p) (hstays : Stays segments)
    (hlast : segments.getLast? = some scriptSegment) :
    ∃ names', names' ≠ [] ∧ At (top ++ names'.map .name) q := by
  induction h generalizing names with
  | here => exact absurd hlast (by simp)
  | @literal name rest p q next ih =>
    rcases getLast?_cons_cases hlast with ⟨-, heq⟩ | hlast
    · exact absurd heq (by simp [scriptSegment])
    · have hstep := hp.step (by simpa using htop) (hstays.single name List.mem_cons_self)
      have hlevel : name ≠ ".." := by simpa [Segment.climbs] using hstays.level _ List.mem_cons_self
      rcases Component.ofInner_toList hlevel with hinner | hinner
      · exact ih (by simpa [hinner] using hstep) hstays.tail hlast
      · have hnext : At (top ++ (names ++ [name]).map .name) (Glob.step p name) := by
          simpa [hinner] using hstep
        exact ih hnext hstays.tail hlast
  | @dots ts name rest p q asked next ih =>
    have hlevel : ".." ∉ dotNames ts := by
      simpa [Segment.climbs] using hstays.level _ List.mem_cons_self
    rcases getLast?_cons_cases hlast with ⟨-, heq⟩ | hlast
    · rw [Segment.wildcard.inj heq] at asked
      exact absurd asked (by simp [dotNames])
    · have hdot : name = "." := by
        have hmem : name ∈ ["..", "."] := by
          unfold dotNames at asked
          split at asked
          · exact (List.mem_filter.mp asked).1
          · exact absurd asked List.not_mem_nil
        have hne : name ≠ ".." := fun heq => hlevel (heq ▸ asked)
        simpa [hne] using hmem
      exact ih (hdot ▸ hp.join_dot) hstays.tail hlast
  | name proper fits next ih =>
    rcases getLast?_cons_cases hlast with ⟨rfl, -⟩ | hlast
    · cases next
      exact ⟨_, by simp, hp.into htop proper⟩
    · exact ih (hp.into htop proper) hstays.tail hlast
  | deeper proper next ih => exact ih (hp.into htop proper) hstays hlast
  | found proper fits next ih =>
    rw [List.getLast?_cons_cons] at hlast
    rcases getLast?_cons_cases hlast with ⟨rfl, -⟩ | hlast
    · cases next
      exact ⟨_, by simp, hp.into htop proper⟩
    · exact ih (hp.into htop proper) hstays.tail.tail hlast
  | once next ih => exact ih hp hstays.tail (by rwa [List.getLast?_cons_cons] at hlast)
  | last proper => exact absurd hlast (by simp [scriptSegment])

end Inside

end Glob

/-! ## Scripts below a scan root -/

namespace Tree

/-- Whether a part of a scan root can lead to the parent of a directory. -/
def climbs (part : List Char) : Bool := (Segment.parse part).toOption.any Segment.climbs

/-- The pattern of a scan root leads nowhere but below the project root. -/
structure Staying (base root : String) : Prop where
  below : base ≠ "" ∨ Selection.trimRoot root ≠ ""
  level : ∀ part ∈ parts '/' (Selection.trimRoot root).toList, climbs part = false

instance (base root : String) : Decidable (Staying base root) :=
  decidable_of_iff (_ ∧ _) ⟨fun ⟨h₁, h₂⟩ => ⟨h₁, h₂⟩, fun h => ⟨h.below, h.level⟩⟩

theorem stays_of_level {root : String} {segments : List Segment}
    (hlevel : ∀ part ∈ parts '/' root.toList, climbs part = false)
    (hparse : (parts '/' root.toList).mapM Segment.parse = .ok segments) :
    Stays (segments ++ [.descend, scriptSegment]) := by
  have hscript : scriptSegment.climbs = false := by decide
  refine ⟨fun s hs => ?_, fun name hname => ?_⟩
  · rcases List.mem_append.mp hs with hs | hs
    · obtain ⟨part, hpart, heq⟩ := exists_part_of_mem hparse hs
      simpa [climbs, heq, Except.toOption] using hlevel part hpart
    · rcases List.mem_cons.mp hs with rfl | hs
      · rfl
      · exact List.mem_singleton.mp hs ▸ hscript
  · have hmem : .literal name ∈ segments := by simpa [scriptSegment] using hname
    obtain ⟨part, hpart, heq⟩ := exists_part_of_mem hparse hmem
    rw [Segment.parse_eq_literal heq]
    exact notMem_of_mem_parts '/' hpart

theorem components_seen {top full : String} {names : List String}
    (h : components full = components top ++ names.map .name) :
    isAbsolute (relative top full) = false ∧ components (relative top full) = names.map .name := by
  by_cases htop : components top = []
  · rw [htop, List.nil_append] at h
    have hrelative : relative top full = full := by
      rw [relative, below?, if_pos htop, Option.getD_some]
    rw [hrelative]
    refine ⟨?_, h⟩
    rw [← Bool.not_eq_true]
    intro habsolute
    obtain ⟨rest, hrest⟩ := components_absolute habsolute
    have hroot : .root ∈ names.map Component.name := by
      rw [← h, hrest]
      exact List.mem_cons_self
    exact absurd hroot (by simp)
  · obtain ⟨rest, hbelow, hrest, habsolute⟩ := components_below htop h
    rw [relative, hbelow]
    exact ⟨habsolute, hrest⟩

theorem shows_inside {projectRoot : String} (hrelative : isAbsolute projectRoot = false) {d : Disk}
    {cwd : Place} {root path : String} (hstaying : Staying (base projectRoot) root)
    (h : d.Shows cwd (base projectRoot) (Selection.trimRoot root) path) :
    isAbsolute path = false ∧ ∃ full names, names ≠ [] ∧ d.isFile cwd full = true ∧
      components full = components (base projectRoot) ++ names.map .name ∧
      components path = names.map .name := by
  obtain ⟨pattern, full, hparse, hmatches, hfile, rfl⟩ := h
  obtain ⟨-, habsolute, hsegments⟩ := parse_eq_ok_iff.mp hparse
  have hhead : (rootPattern (base projectRoot) (Selection.trimRoot root)).head? ≠ some '/' := by
    rw [Ne, head?_rootPattern hstaying.below, isAbsolute_base, hrelative]
    simp
  rw [if_neg hhead, mapM_parse_rootPattern, exact_parts_base hrelative] at hsegments
  rw [habsolute, decide_eq_false hhead, if_neg (by simp)] at hmatches
  cases hroot : (parts '/' (Selection.trimRoot root).toList).mapM Segment.parse with
  | error e => exact absurd hsegments (by simp [hroot, Except.map])
  | ok segments =>
    have hall : ((innerComponents projectRoot).map fun c => c.text.toList).map Segment.exact ++
        (segments ++ [.descend, scriptSegment]) = pattern.segments := by
      rw [hroot] at hsegments
      rw [← Except.ok.inj hsegments, List.map_map]
      rfl
    rw [← hall] at hmatches
    have hinner := inner_of_mem_innerComponents projectRoot
    have hbase : components (base projectRoot) = innerComponents projectRoot := by
      rw [components_base, hrelative]
      rfl
    have hhere : At [] "." := .inr ⟨rfl, by decide⟩
    obtain ⟨start, hstart, hrest⟩ := hmatches.exact hhere (by simp)
      (by simpa using fun c hc => (hinner c hc).2)
    rw [List.nil_append, filterMap_text hinner] at hstart
    have hstart : At (innerComponents projectRoot ++ ([] : List String).map .name) start := by
      simpa using hstart
    obtain ⟨names, hnames, hfull⟩ := hrest.inside (fun hmem => (hinner _ hmem).ne.2 rfl) hstart
      (stays_of_level hstaying.level hroot) (by simp)
    have hfull : components full = components (base projectRoot) ++ names.map .name :=
      hbase ▸ hfull.resolve_right fun h => hnames (by simpa using (List.append_eq_nil_iff.mp h.1).2)
    obtain ⟨hpath, hcomponents⟩ := components_seen hfull
    exact ⟨hpath, full, names, hnames, hfile, hfull, hcomponents⟩

end Tree

/-! ## Visits inside the project -/

/-- A relative path that consists of names. -/
structure ScriptPath.Inward (path : String) : Prop where
  relative : isAbsolute path = false
  named : ∃ names : List String, names ≠ [] ∧ components path = names.map .name

theorem ScriptPath.Inward.ne_empty {path : String} (h : Inward path) : path ≠ "" := by
  rintro rfl
  obtain ⟨names, hnames, hcomponents⟩ := h.named
  exact hnames (by simpa using hcomponents.symm)

theorem ScriptPath.Inward.up_notMem {path : String} (h : Inward path) : .up ∉ components path := by
  obtain ⟨names, -, hcomponents⟩ := h.named
  simp [hcomponents]

namespace Disk

section Houses

variable {d : Disk} {cwd : Place} {root : String} {r : Place}

theorem Houses.inside (h : d.Houses cwd root r) {path : String} (hpath : Inward path) {q : Place}
    {e : Entry} (htarget : d.target cwd (join root path) = .ok (q, e)) : r <+: q := by
  obtain ⟨fromTop, steps, hroute⟩ := ofPath_join root
  obtain ⟨mode, hfollow⟩ := h.leads
  obtain ⟨-, -, hroot⟩ := follow_eq_taken_iff.mp hfollow
  obtain ⟨-, -, hleads⟩ := follow_eq_taken_iff.mp (target_eq_ok_iff.mp htarget).2
  have hdot : (Route.ofPath (.text ".")).steps = [.stay] := by decide
  rw [hroute "." (by decide) (by decide), hdot] at hroot
  rw [hroute path hpath.relative hpath.ne_empty] at hleads
  obtain ⟨mid, f, left, hmid, hstay, -⟩ := hroot.split (by simp)
  obtain ⟨mid', f', left', hmid', hrest, -⟩ :=
    hleads.split (steps_ne_nil hpath.relative hpath.ne_empty)
  -- both take the steps of the project root first
  obtain ⟨rfl, -⟩ := hmid.unique hmid'
  have hr : r = mid := (hstay.unique (.stay .done)).1
  exact hrest.isPrefix (hr ▸ List.prefix_refl r) (fun hup =>
    hpath.up_notMem (up_mem_components hup))
    h.linkless

theorem isPrefix_beside {p : Place} (h : r <+: p) (hne : r ≠ p) :
    r <+: beside p ∧ r ≠ beside p := by
  obtain rfl | ⟨dir, name, rfl⟩ := List.eq_nil_or_concat p
  · exact absurd (List.prefix_nil.mp h) hne
  · rw [List.concat_eq_append] at *
    rw [beside_concat]
    have hdir : r <+: dir := (List.prefix_concat_iff.mp h).resolve_left hne
    refine ⟨hdir.trans (List.prefix_append _ _), fun heq => ?_⟩
    have hlength := hdir.length_le
    rw [heq, List.length_append, List.length_singleton] at hlength
    omega

theorem Houses.ne_of_file (h : d.Houses cwd root r) {p : Place} {c : Raw} {mode : Mode}
    (hget : d.get? p = some (.file c mode)) : r ≠ p := by
  rintro rfl
  obtain ⟨mode', hfollow⟩ := h.leads
  exact absurd (follow_eq_taken_iff.mp hfollow).2.2.getD_get? (by simp [hget])

/-- Replacing a script inside changes nothing elsewhere, and the project stays where it is. -/
theorem Houses.of_replaced {d' : Disk} (h : d.Houses cwd root r) {p : Place} {text : String}
    (hreplaced : d.Replaced d' p text) (hp : r <+: p) :
    d'.Houses cwd root r ∧ ∀ q, ¬ r <+: q → d'.get? q = d.get? q := by
  obtain ⟨mode, hfollow⟩ := h.leads
  obtain ⟨hpath, hempty, hleads⟩ := follow_eq_taken_iff.mp hfollow
  obtain ⟨c, mode', hold, hnew⟩ := hreplaced.file
  have hne := h.ne_of_file hold
  obtain ⟨hbeside, hne'⟩ := isPrefix_beside hp hne
  refine ⟨⟨⟨mode, follow_eq_taken_iff.mpr ⟨hpath, hempty, ?_⟩⟩, fun q t hq => ?_⟩, fun q hq => ?_⟩
  · refine hleads.congr [p, beside p] (fun q hq => ?_) (fun q hq => ?_) (by simp [hne, hne'])
    · exact hreplaced.other q (by simp_all) (by simp_all)
    · rcases List.mem_cons.mp hq with rfl | hq
      · simp [hold, Entry.kind]
      · exact List.mem_singleton.mp hq ▸ hreplaced.stale
  · by_cases hqp : q = p
    · simp [hqp, hnew]
    · by_cases hqb : q = beside p
      · simp [hqb, hreplaced.clean]
      · rw [hreplaced.other q hqp hqb]
        exact h.linkless q t hq
  · exact hreplaced.other q (fun heq => hq (heq ▸ hp)) (fun heq => hq (heq ▸ hbeside))

end Houses

end Disk

/-! ## A store with a fence -/

namespace Tree

open Disk

variable (cwd : Place) (root : String) (r : Place)

/-- Whether a path leads to something that is not at or below a place. -/
def strays (d : Disk) (path : String) : Bool :=
  (leadsTo? cwd root d path).any fun q => !decide (r <+: q)

/-- The store of a project that refuses to read or write anything that is not at or below a place.
-/
def fenced : Store (StateM Disk) where
  discover := (store (fileSystem cwd) root).discover
  read path := do
    if strays cwd root r (← get) path then return .error (.plain "outside")
    else (store (fileSystem cwd) root).read path
  write path text := do
    if strays cwd root r (← get) path then return .error (.plain "outside")
    else (store (fileSystem cwd) root).write path text

variable {cwd root r} {d : Disk} {path : String}

theorem not_strays (h : d.Houses cwd root r) (hpath : Inward path) :
    strays cwd root r d path = false := by
  unfold strays leadsTo?
  cases htarget : d.target cwd (join root path) with
  | error e => rfl
  | ok found =>
    obtain ⟨q, e⟩ := found
    simpa [Except.toOption] using h.inside hpath htarget

theorem fenced_read (h : strays cwd root r d path = false) :
    ((fenced cwd root r).read path).run d = ((store (fileSystem cwd) root).read path).run d := by
  simp [fenced, h]

theorem fenced_write (h : strays cwd root r d path = false) (text : String) :
    ((fenced cwd root r).write path text).run d =
      ((store (fileSystem cwd) root).write path text).run d := by
  simp [fenced, h]

end Tree

/-! ## Runs inside the project -/

section Runs

open Disk

variable {cwd : Place} {root : String} {r : Place} (fixer : Fixer)

/-- The fence does not matter to a visit that does not stray. -/
theorem visit_fenced {d : Disk} {path : String} (h : Tree.strays cwd root r d path = false)
    (report : Report) :
    (visit (Tree.fenced cwd root r) fixer report path).run d =
      (visit (Tree.store (fileSystem cwd) root) fixer report path).run d := by
  have hread := read_run cwd root d path
  unfold visit
  rw [run_bind_of_run hread, run_bind_of_run ((Tree.fenced_read h).trans hread)]
  cases d.read cwd (join root path) with
  | error e => rfl
  | ok before =>
    simp only [mapError_ok]
    split
    · rfl
    · have hwrite :
        (writeBack (Tree.fenced cwd root r) report.dryRun path (fixer.fix before).text).run d =
          (writeBack (Tree.store (fileSystem cwd) root) report.dryRun path
            (fixer.fix before).text).run d := by
        unfold writeBack
        split
        · rfl
        · exact Tree.fenced_write h _
      rw [StateT.run_bind, StateT.run_bind, hwrite]

theorem visit_inside {d : Disk} (hd : d.Sound) (hhouses : d.Houses cwd root r) {path : String}
    (hpath : Inward path) (report : Report) :
    ∃ result d', (visit (Tree.store (fileSystem cwd) root) fixer report path).run d = (result, d') ∧
      d'.Sound ∧ d'.Houses cwd root r ∧ ∀ q, ¬ r <+: q → d'.get? q = d.get? q := by
  by_cases hdry : report.dryRun = true
  · exact ⟨_, d, visit_dry cwd root fixer hdry path, hd, hhouses, fun _ _ => rfl⟩
  cases hread : d.read cwd (join root path) with
  | error e =>
    have hstore := read_run cwd root d path
    rw [hread] at hstore
    refine ⟨.error (.io (join root path) e), d, ?_, hd, hhouses, fun _ _ => rfl⟩
    unfold visit
    rw [run_bind_of_run hstore]
    rfl
  | ok before =>
    obtain ⟨p, mode, htarget⟩ := (read_eq_ok_iff cwd).mp hread
    have hp := hhouses.inside hpath htarget
    have hlink : ∀ t, d.get? (beside p) ≠ some (.link t) := fun t =>
      hhouses.linkless _ t (isPrefix_beside hp (hhouses.ne_of_file (get?_of_target htarget))).1
    rcases visit_wet cwd root fixer hd (by simpa using hdry) htarget (fun _ => hlink) with
      ⟨e, hrun⟩ | ⟨d', hrun, hleft⟩
    · exact ⟨_, d, hrun, hd, hhouses, fun _ _ => rfl⟩
    · by_cases hfix : (fixer.fix before).text = before
      · rw [if_pos hfix] at hleft
        exact ⟨_, d', hrun, hleft ▸ hd, hleft ▸ hhouses, fun _ _ => hleft ▸ rfl⟩
      · rw [if_neg hfix] at hleft
        obtain ⟨hhouses', hother⟩ := hhouses.of_replaced hleft.2 hp
        exact ⟨_, d', hrun, hleft.1, hhouses', hother⟩

theorem visitAll_inside {d : Disk} (hd : d.Sound) (hhouses : d.Houses cwd root r)
    {paths : List String} (hpaths : ∀ path ∈ paths, Inward path) (report : Report) :
    (visitAll (Tree.fenced cwd root r) fixer report paths).run d =
        (visitAll (Tree.store (fileSystem cwd) root) fixer report paths).run d ∧
      ∀ q, ¬ r <+: q →
        ((visitAll (Tree.store (fileSystem cwd) root) fixer report paths).run d).2.get? q =
        d.get? q := by
  induction paths generalizing d report with
  | nil => exact ⟨rfl, fun _ _ => rfl⟩
  | cons path paths ih =>
    obtain ⟨hpath, hrest⟩ := List.forall_mem_cons.mp hpaths
    obtain ⟨result, d', hvisit, hd', hhouses', hother⟩ := visit_inside fixer hd hhouses hpath report
    have hfenced := (visit_fenced fixer (Tree.not_strays hhouses hpath) report).trans hvisit
    unfold visitAll
    rw [run_bind_of_run hvisit, run_bind_of_run hfenced]
    cases result with
    | error e => exact ⟨rfl, hother⟩
    | ok report' =>
      obtain ⟨hsame, hrest'⟩ := ih hd' hhouses' hrest report'
      exact ⟨hsame, fun q hq => (hrest' q hq).trans (hother q hq)⟩

/-- A search below scan roots that do not lead away finds scripts by relative paths, and joined to
the project root these name files below it.  If no link leads out of the project, a run neither
reads nor changes anything outside. -/
theorem run_stays_inside {d : Disk} (hd : d.Sound) (cwd : Place) (root : String) (s : RunSettings)
    (hrelative : isAbsolute root = false)
    (hroots : ∀ scanRoot ∈ s.selection.roots, Tree.Staying (Tree.base root) scanRoot) :
    (∀ found, ((Tree.discover (fileSystem cwd) root s.selection).run d).1 = .ok found →
      ∀ path ∈ found, isAbsolute path = false ∧ ∃ full names, names ≠ [] ∧
        d.isFile cwd full = true ∧
        components full = components (Tree.base root) ++ names.map .name ∧
        components (join root path) = components root ++ names.map .name) ∧
    ∀ r, d.Houses cwd root r →
      (run (Tree.fenced cwd root r) s).run d = (run (Tree.store (fileSystem cwd) root) s).run d ∧
      ∀ q, ¬ r <+: q → ((run (Tree.store (fileSystem cwd) root) s).run d).2.get? q = d.get? q := by
  obtain ⟨result, hresult, hshows⟩ := answers_discover cwd hd root s.selection
  have hinside : ∀ found, result = .ok found → ∀ path ∈ found, isAbsolute path = false ∧
      ∃ full names, names ≠ [] ∧ d.isFile cwd full = true ∧
        components full = components (Tree.base root) ++ names.map .name ∧
        components path = names.map .name := by
    intro found hfound path hpath
    obtain ⟨-, scanRoot, hmem, hshown⟩ := (hshows found hfound).2 path hpath
    exact Tree.shows_inside hrelative (hroots scanRoot hmem) hshown
  refine ⟨fun found hfound path hpath => ?_, fun r hhouses => ?_⟩
  · rw [show _ = _ from hresult] at hfound
    obtain ⟨habsolute, full, names, hnames, hfile, hfull, hcomponents⟩ :=
      hinside found hfound path hpath
    refine ⟨habsolute, full, names, hnames, hfile, hfull, ?_⟩
    rw [components_join_of_names habsolute (by simp [hcomponents]), hcomponents]
  · have hstore : ((Tree.store (fileSystem cwd) root).discover s.selection).run d =
        (result.mapError .known, d) := run_bind_of_run hresult
    have hfenced : ((Tree.fenced cwd root r).discover s.selection).run d =
        (result.mapError .known, d) := hstore
    unfold run
    cases Fixer.ofStyle s.style with
    | error e => exact ⟨rfl, fun _ _ => rfl⟩
    | ok fixer =>
      rw [run_bind_of_run hstore, run_bind_of_run hfenced]
      cases result with
      | error e => exact ⟨rfl, fun _ _ => rfl⟩
      | ok found =>
        refine visitAll_inside fixer hd hhouses (fun path hpath => ?_) _
        obtain ⟨habsolute, -, names, hnames, -, -, hcomponents⟩ := hinside found rfl path hpath
        exact ⟨habsolute, names, hnames, hcomponents⟩

end Runs

/-! ## Scan roots that lead away -/

section Away

open Disk

/-- A script beside a project, and one in a hidden directory of the project. -/
def neighbours : Disk :=
  ⟨[([.text "w"], .dir 0o755),
    ([.text "w", .text "near.gd"], .file (.text "int(d.get(\"k\"))") 0o644),
    ([.text "w", .text "proj"], .dir 0o755), ([.text "w", .text "proj", .text ".h"], .dir 0o755),
    ([.text "w", .text "proj", .text ".h", .text "x.gd"], .file (.text "int(d.get(\"k\"))") 0o644)]⟩

def scanRun (scanRoot : String) : RunSettings :=
  ⟨"", ⟨[scanRoot], [], []⟩, ⟨"DictUtils", "Resource", "null", ["ItemData"]⟩, false, false⟩

theorem sound_neighbours : neighbours.Sound := .of_entries (by decide +kernel) (by decide +kernel)

theorem run_stays_inside_hidden :
    isAbsolute "./proj" = false ∧ Tree.Staying (Tree.base "./proj") "/.h*/" ∧
    neighbours.Houses [.text "w"] "./proj" [.text "w", .text "proj"] ∧
    ((Tree.discover (fileSystem [.text "w"]) "./proj" (scanRun "/.h*/").selection).run
      neighbours).1.toOption = some [".h/x.gd"] ∧
    ((run (Tree.store (fileSystem [.text "w"]) "./proj") (scanRun "/.h*/")).run neighbours).2.get?
      [.text "w", .text "near.gd"] = some (.file (.text "int(d.get(\"k\"))") 0o644) := by
  have hroots : ∀ scanRoot ∈ (scanRun "/.h*/").selection.roots,
      Tree.Staying (Tree.base "./proj") scanRoot := by decide +kernel
  have hlink : ∀ q t, neighbours.get? q ≠ some (.link t) := by
    intro q t hget
    have hmem := get?_cons_mem hget (by rintro rfl; exact absurd hget (by simp [get?]))
    have hkinds : ∀ e ∈ neighbours.entries, e.2.kind ≠ .link := by decide +kernel
    exact hkinds _ hmem rfl
  have hhouses : neighbours.Houses [.text "w"] "./proj" [.text "w", .text "proj"] :=
    ⟨⟨0o755, by rfl⟩, fun q t _ => hlink q t⟩
  obtain ⟨-, hruns⟩ := run_stays_inside sound_neighbours [.text "w"] "./proj" (scanRun "/.h*/")
    (by decide) hroots
  refine ⟨by decide, hroots _ List.mem_cons_self, hhouses, by decide +kernel, ?_⟩
  rw [(hruns _ hhouses).2 _ (by decide +kernel)]
  decide +kernel

/-- A wildcard behind a dot climbs out of the project, and a run changes what it finds there.  An
empty scan root of an empty project root starts at the top of the disk. -/
theorem search_leaves_project :
    ((Tree.discover (fileSystem [.text "w"]) "proj" (scanRun ".?").selection).run
      neighbours).1.toOption = some ["../near.gd", "../proj/.h/x.gd", ".h/x.gd"] ∧
    ((run (Tree.store (fileSystem [.text "w"]) "proj") (scanRun ".?")).run neighbours).2.get?
      [.text "w", .text "near.gd"] = some (.file (.text "DictUtils.get_int(d, \"k\", 0)") 0o644) ∧
    ((Tree.discover (fileSystem [.text "w", .text "proj"]) "." (scanRun "/").selection).run
      neighbours).1.toOption = some ["/w/near.gd", "/w/proj/.h/x.gd"] := by
  refine ⟨?_, ?_, ?_⟩
  · decide +kernel
  · decide +kernel
  · decide +kernel

end Away

end CastGuard
