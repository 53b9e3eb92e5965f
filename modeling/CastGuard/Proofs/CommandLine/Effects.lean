/-
# `CastGuard.Proofs.CommandLine.Effects` — what the program writes and what it prints

Everything that can speak against writing is found out before anything is written: the arguments are
read first, then the settings file, then the style is checked, and then all scan roots are searched,
of which any may be refused after earlier ones were searched with success.  `Spared` lists these
cases and the dry run, and in all of them the disk stays as it is.

What is printed is decided last.  A call that fails prints nothing, and one that succeeds prints the
summary of its report and, if it was asked to and some script has changed, the patch behind an empty
line.  The program looks at the patch and not at the scripts; that the patch is empty exactly if no
script has changed is kept up by every visit (`Report.Patched`).
-/
import CastGuard.CommandLine
import CastGuard.Proofs.Glob.Refusal
import CastGuard.Proofs.Run.Preview

namespace CastGuard

open Disk Glob

/-! ## Arguments -/

namespace CommandLine

theorem withRoot?_flags {o o' : Options} {dir : String} (h : o.withRoot? dir = some o') :
    o'.dryRun = o.dryRun ∧ o'.diff = o.diff := by
  unfold Options.withRoot? at h
  split at h
  · exact absurd h (by simp)
  · obtain rfl := Option.some.inj h
    exact ⟨rfl, rfl⟩

/-- A flag of options is one that was set before or is among the arguments. -/
def Flagged (o : Options) (args : List String) (o' : Options) : Prop :=
  (o'.dryRun = true ↔ o.dryRun = true ∨ "--dry-run" ∈ args) ∧
    (o'.diff = true ↔ o.diff = true ∨ "--diff" ∈ args)

/-- Arguments that name the project root set no flag. -/
theorem Flagged.of_withRoot? {o o₁ o' : Options} {dir : String} {args : List String}
    (h : Flagged o₁ args o') (hroot : o.withRoot? dir = some o₁) (words : List String)
    (hdry : "--dry-run" ∉ words) (hdiff : "--diff" ∉ words) : Flagged o (words ++ args) o' := by
  obtain ⟨hsame, hsame'⟩ := withRoot?_flags hroot
  rw [Flagged, hsame, hsame'] at h
  simpa [Flagged, hdry, hdiff] using h

theorem letter?_ne_run (arg : String) (o : Options) : letter? arg ≠ some (.run o) := by
  unfold letter?
  split <;> simp

/-- Arguments that are accepted set the flags that are among them. -/
theorem parseFrom?_flags {o o' : Options} {args : List String}
    (h : parseFrom? o args = some (.run o')) : Flagged o args o' := by
  fun_induction parseFrom? o args with
  | case1 o =>
    obtain rfl : o = o' := by simpa using h
    simp [Flagged]
  | case2 o =>
    obtain rfl : o = o' := by simpa using h
    simp [Flagged]
  | case3 o args => exact absurd h (by simp)
  | case4 o args => exact absurd h (by simp)
  | case5 o args hdry => exact absurd h (by simp)
  | case6 o args hdry ih =>
    obtain ⟨hdryRun, hdiff⟩ := ih h
    exact ⟨by simp [hdryRun], by simp [hdiff]⟩
  | case7 o args hdiff => exact absurd h (by simp)
  | case8 o args hdiff ih =>
    obtain ⟨hdryRun, hdiff⟩ := ih h
    exact ⟨by simp [hdryRun], by simp [hdiff]⟩
  | case9 o dir args hoption => exact absurd h (by simp)
  | case10 o dir args hoption ih =>
    -- a value that could be taken for a flag is refused
    have hdry : "--dry-run" ≠ dir := by
      rintro rfl
      exact hoption (by decide)
    have hdiff : "--diff" ≠ dir := by
      rintro rfl
      exact hoption (by decide)
    obtain ⟨o₁, hroot, hrest⟩ := Option.bind_eq_some_iff.mp h
    exact (ih o₁ hrest).of_withRoot? hroot ["--project-root", dir] (by simp [hdry])
      (by simp [hdiff])
  | case11 o arg args _ _ _ hdry hdiff _ dir hafter ih =>
    obtain ⟨o₁, hroot, hrest⟩ := Option.bind_eq_some_iff.mp h
    exact (ih o₁ hrest).of_withRoot? hroot [arg] (by simpa using Ne.symm hdry)
      (by simpa using Ne.symm hdiff)
  | case12 o arg args => exact absurd h (letter?_ne_run _ _)

theorem parse?_flags {o : Options} {args : List String} (h : parse? args = some (.run o)) :
    (o.dryRun = true ↔ "--dry-run" ∈ args) ∧ (o.diff = true ↔ "--diff" ∈ args) := by
  simpa [Flagged, Options.standard] using parseFrom?_flags h

end CommandLine

/-! ## Runs that leave the disk as it is -/

section Spared

variable {d : Disk} (hd : d.Sound) (cwd : Place)
include hd

/-- A root that is refused stops the search, whatever the roots before it had to offer. -/
theorem scriptsBelowAll_refused (base : String) {roots : List String} {root : String}
    {e : PatternError}
    (hroot : root ∈ roots) (h : PathPattern.parse root.toList = .error e) :
    ∃ error, d.Answers (Tree.scriptsBelowAll (fileSystem cwd) base roots) (.error error) := by
  induction roots with
  | nil => exact absurd hroot List.not_mem_nil
  | cons first roots ih =>
    unfold Tree.scriptsBelowAll
    rcases List.mem_cons.mp hroot with rfl | hroot
    · obtain ⟨e', hparse⟩ := rootPattern_refused h base
      have hfirst : d.Answers (Tree.scriptsBelow (fileSystem cwd) base (Selection.trimRoot root))
          (.error (.scanRoot (Selection.trimRoot root) e')) := by
        rw [Tree.scriptsBelow, hparse]
        exact answers_pure _
      exact ⟨_, hfirst.bind (answers_pure _)⟩
    · obtain ⟨r, hr, -⟩ := answers_scriptsBelow cwd hd base (Selection.trimRoot first)
      cases r with
      | error e' => exact ⟨_, hr.bind (answers_pure _)⟩
      | ok found =>
        obtain ⟨error, herror⟩ := ih hroot
        exact ⟨_, hr.bind (herror.bind (answers_pure _))⟩

theorem discover_refused (projectRoot : String) {s : Selection} {root : String} {e : PatternError}
    (hroot : root ∈ s.roots) (h : PathPattern.parse root.toList = .error e) :
    ∃ error, d.Answers (Tree.discover (fileSystem cwd) projectRoot s) (.error error) := by
  obtain ⟨error, herror⟩ := scriptsBelowAll_refused hd cwd (Tree.base projectRoot) hroot h
  exact ⟨error, herror.bind (answers_pure _)⟩

theorem run_spares (projectRoot : String) {s : RunSettings}
    (h : s.dryRun = true ∨ ¬ s.style.Sound ∨
      ∃ root ∈ s.selection.roots, ∃ e, PathPattern.parse root.toList = .error e) :
    ((run (Tree.store (fileSystem cwd) projectRoot) s).run d).2 = d := by
  by_cases hstyle : s.style.Sound
  · rcases run_tree hd cwd projectRoot s with ⟨e, hrun⟩ | ⟨paths, hfound, hrun⟩
    · exact congrArg Prod.snd (hrun s.dryRun)
    · rcases h with hdry | hunsound | ⟨root, hroot, e, hparse⟩
      · have hvisits :=
          visitAll_dry cwd projectRoot ⟨s.style.rules⟩ (d := d) (r := .start s) hdry paths
        rw [show (run (Tree.store (fileSystem cwd) projectRoot) s).run d = _ from hrun s.dryRun]
        exact congrArg Prod.snd hvisits
      · exact absurd hstyle hunsound
      · obtain ⟨error, herror⟩ := discover_refused hd cwd projectRoot hroot hparse
        rw [show _ = _ from herror] at hfound
        exact absurd hfound (by simp)
  · unfold run
    cases hfixer : Fixer.ofStyle s.style with
    | error e => rfl
    | ok fixer => exact absurd (Fixer.ofStyle_eq_ok_iff.mp hfixer).1 hstyle

end Spared

/-! ## The patch of a report -/

/-- The report has a patch if one is wanted, and the patch is empty exactly if no script has
changed. -/
structure Report.Patched (wantsPatch : Bool) (r : Report) : Prop where
  wanted : r.patch.isSome = wantsPatch
  empty_iff : ∀ patch, r.patch = some patch → (patch = "" ↔ r.files = [])

theorem filePatch_ne_empty (path : String) {before after : String} (h : before ≠ after) :
    filePatch path before after ≠ "" := by
  intro hempty
  have hchars := String.toList_eq_nil_iff.mpr hempty
  rw [filePatch, if_neg h, String.toList_ofList] at hchars
  exact lineEnded_ne_nil _ hchars

theorem Report.Patched.after {wantsPatch : Bool} {r : Report} (h : r.Patched wantsPatch)
    (fixer : Fixer)
    (path before : String) : (r.after fixer path before).Patched wantsPatch := by
  unfold Report.after
  split
  · exact ⟨h.wanted, h.empty_iff⟩
  · next hfix =>
    refine ⟨by simpa [Report.change, Report.scan] using h.wanted, fun patch hpatch => ?_⟩
    obtain ⟨front, -, rfl⟩ := Option.map_eq_some_iff.mp hpatch
    constructor
    · intro hempty
      have hsection := filePatch_ne_empty path (Ne.symm hfix)
      rw [← String.toList_inj, String.toList_append] at hempty
      exact absurd (String.toList_inj.mp (List.append_eq_nil_iff.mp hempty).2) hsection
    · intro hfiles
      exact absurd hfiles (by simp [Report.change])

theorem Report.patched_start (s : RunSettings) : (Report.start s).Patched s.wantsPatch := by
  cases hpatch : s.wantsPatch <;>
    exact ⟨by simp [Report.start, hpatch], by simp [Report.start, hpatch]⟩

theorem run_patched {σ : Type} {store : Store (StateM σ)} {s : RunSettings}
    {report : Report} {st st' : σ}
    (h : (run store s).run st = (.ok report, st')) : report.Patched s.wantsPatch := by
  unfold run at h
  cases hfixer : Fixer.ofStyle s.style with
  | error e =>
    rw [hfixer] at h
    exact absurd (Prod.mk.inj h).1 (by simp)
  | ok fixer =>
    rw [hfixer] at h
    rcases hfound : (store.discover s.selection).run st with ⟨x, st₁⟩
    rw [run_bind_of_run hfound] at h
    cases x with
    | error e => exact absurd (Prod.mk.inj h).1 (by simp)
    | ok paths =>
      exact visitAll_induction store fixer (P := fun r _ => r.Patched s.wantsPatch)
        (fun r path before _ hr => hr.after fixer path before) (Report.patched_start s) h

namespace CommandLine

theorem reportText_of_changes {r : Report} (h : r.Patched true) (hfiles : r.files ≠ []) :
    ∃ patch, r.patch = some patch ∧ reportText r = r.summary ++ "\n" ++ patch := by
  obtain ⟨patch, hpatch⟩ := Option.isSome_iff_exists.mp h.wanted
  have hne : patch ≠ "" := fun hempty => hfiles ((h.empty_iff patch hpatch).mp hempty)
  refine ⟨patch, hpatch, ?_⟩
  simp [reportText, hpatch, hne]

theorem reportText_otherwise {wantsPatch : Bool} {r : Report} (h : r.Patched wantsPatch)
    (hnone : ¬ (wantsPatch = true ∧ r.files ≠ [])) : reportText r = r.summary := by
  unfold reportText
  cases hpatch : r.patch with
  | none => rfl
  | some patch =>
    have hwanted : wantsPatch = true := by rw [← h.wanted, hpatch]; rfl
    have hfiles : r.files = [] := Decidable.not_not.mp fun hne => hnone ⟨hwanted, hne⟩
    simp [(h.empty_iff patch hpatch).mpr hfiles]

/-! ## The program -/

theorem exists_answers_bind {d : Disk} {α β : Type} {x : StateM Disk α} {f : α → StateM Disk β}
    (hx : ∃ a, d.Answers x a) (hf : ∀ a, ∃ b, d.Answers (f a) b) : ∃ b, d.Answers (x >>= f) b := by
  obtain ⟨a, ha⟩ := hx
  obtain ⟨b, hb⟩ := hf a
  exact ⟨b, ha.bind hb⟩

theorem answers_load (d : Disk) (cwd : Place) (projectRoot : String) :
    ∃ r, d.Answers (SettingsFile.load (fileSystem cwd) projectRoot) r := by
  have hat : ∀ path, ∃ r, d.Answers (SettingsFile.loadAt (fileSystem cwd) path) r := by
    intro path
    refine exists_answers_bind ⟨_, answers_ask _⟩ fun read => ?_
    cases read with
    | error e => exact ⟨_, answers_pure _⟩
    | ok text =>
      dsimp only
      cases SettingsFile.parse text with
      | error e => exact ⟨_, answers_pure _⟩
      | ok file => exact ⟨_, answers_pure _⟩
  have hfind : ∃ path?, d.Answers (SettingsFile.find? (fileSystem cwd) projectRoot) path? :=
    exists_answers_bind ⟨_, answers_ask _⟩ fun isDir =>
      exists_answers_bind ⟨_, answers_ask _⟩ fun isFile => ⟨_, answers_pure _⟩
  refine exists_answers_bind hfind fun path? => ?_
  cases path? with
  | none => exact ⟨_, answers_pure _⟩
  | some path => exact hat path

/-- How a call that runs over a project ends: the settings cannot be had, or the run fails, or its
report is told. -/
theorem runProject_cases (d : Disk) (cwd : Place) (o : Options) :
    (∃ e, d.Answers (SettingsFile.load (fileSystem cwd) (o.projectRoot.getD ".")) (.error e) ∧
      (runProject (fileSystem cwd) o).run d = (.failed 1, d)) ∨
    ∃ file result d',
      d.Answers (SettingsFile.load (fileSystem cwd) (o.projectRoot.getD ".")) (.ok file) ∧
      (run (Tree.store (fileSystem cwd) (o.projectRoot.getD "."))
        (file.runSettings (o.projectRoot.getD ".") o.dryRun o.diff)).run d = (result, d') ∧
      (runProject (fileSystem cwd) o).run d =
        (match result with
          | .error e => .failed e.exitCode
          | .ok report => ⟨0, reportText report⟩, d') := by
  obtain ⟨r, hload⟩ := answers_load d cwd (o.projectRoot.getD ".")
  unfold runProject
  rw [run_bind_of_run hload]
  cases r with
  | error e => exact .inl ⟨e, hload, rfl⟩
  | ok file =>
    rcases hrun : (run (Tree.store (fileSystem cwd) (o.projectRoot.getD "."))
      (file.runSettings (o.projectRoot.getD ".") o.dryRun o.diff)).run d with ⟨result, d'⟩
    refine .inr ⟨file, result, d', hload, hrun, ?_⟩
    dsimp only
    rw [run_bind_of_run hrun]
    cases result <;> rfl

/-- What keeps a call from writing: it is a dry run, or the arguments, the settings file, the style
or a scan root is at fault. -/
inductive Spared (d : Disk) (cwd : Place) (args : List String) : Prop
  | dry (accepted : parse? args ≠ none) (flag : "--dry-run" ∈ args)
  | misused (refused : parse? args = none)
  | unloaded {o : Options} {e : SettingsFile.LoadError} (asked : parse? args = some (.run o))
      (load : ((SettingsFile.load (fileSystem cwd) (o.projectRoot.getD ".")).run d).1 = .error e)
  | unsound {o : Options} {file : SettingsFile} (asked : parse? args = some (.run o))
      (load : ((SettingsFile.load (fileSystem cwd) (o.projectRoot.getD ".")).run d).1 = .ok file)
      (style : ¬ file.style.Sound)
  | refused {o : Options} {file : SettingsFile} {root : String} {e : PatternError}
      (asked : parse? args = some (.run o))
      (load : ((SettingsFile.load (fileSystem cwd) (o.projectRoot.getD ".")).run d).1 = .ok file)
      (root_mem : root ∈ file.selection.roots) (pattern : PathPattern.parse root.toList = .error e)

theorem Spared.run {d : Disk} {cwd : Place} {args : List String}
    (h : Spared d cwd args) {o : Options}
    (ho : parse? args = some (.run o)) {file : SettingsFile}
    (hload : d.Answers (SettingsFile.load (fileSystem cwd) (o.projectRoot.getD ".")) (.ok file)) :
    o.dryRun = true ∨ ¬ file.style.Sound ∨
      ∃ root ∈ file.selection.roots, ∃ e, PathPattern.parse root.toList = .error e := by
  have hsame : ∀ {o' : Options} {r : Except SettingsFile.LoadError SettingsFile},
      parse? args = some (.run o') →
      ((SettingsFile.load (fileSystem cwd) (o'.projectRoot.getD ".")).run d).1 = r →
        r = .ok file := by
    intro o' r hasked hr
    obtain rfl : o = o' := by simpa using ho.symm.trans hasked
    rw [← hr, show _ = _ from hload]
  cases h with
  | dry _ flag => exact .inl ((parse?_flags ho).1.mpr flag)
  | misused refused => exact absurd (ho.symm.trans refused) (by simp)
  | unloaded asked load => exact absurd (hsame asked load) (by simp)
  | unsound asked load style =>
    obtain rfl := Except.ok.inj (hsame asked load)
    exact .inr (.inl style)
  | refused asked load root_mem pattern =>
    obtain rfl := Except.ok.inj (hsame asked load)
    exact .inr (.inr ⟨_, root_mem, _, pattern⟩)

/-- The program leaves the disk as it is when it must not write, prints nothing when it fails, and
otherwise prints the summary of its run and, exactly if asked to and some script has changed, the
patch. -/
theorem execute_effects {d : Disk} (hd : d.Sound) (cwd : Place) (args : List String) :
    ∃ result d', (execute (fileSystem cwd) args).run d = (result, d') ∧
      (Spared d cwd args → d' = d) ∧
      (result.exitCode ≠ 0 → result.output = "") ∧
      ∀ o, parse? args = some (.run o) → result.exitCode = 0 →
        ∃ file report,
          ((SettingsFile.load (fileSystem cwd) (o.projectRoot.getD ".")).run d).1 = .ok file ∧
          (run (Tree.store (fileSystem cwd) (o.projectRoot.getD "."))
            (file.runSettings (o.projectRoot.getD ".") o.dryRun o.diff)).run d = (.ok report, d') ∧
          ("--diff" ∈ args ∧ report.files ≠ [] → ∃ patch, report.patch = some patch ∧
            result.output = report.summary ++ "\n" ++ patch) ∧
          (¬ ("--diff" ∈ args ∧ report.files ≠ []) → result.output = report.summary) := by
  unfold execute
  cases hparse : parse? args with
  | none => exact ⟨_, d, rfl, fun _ => rfl, fun _ => rfl, fun o ho => absurd ho (by simp)⟩
  | some request =>
    cases request with
    | help =>
      exact ⟨_, d, rfl, fun _ => rfl, fun h => absurd rfl h, fun o ho => absurd ho (by simp)⟩
    | version =>
      exact ⟨_, d, rfl, fun _ => rfl, fun h => absurd rfl h, fun o ho => absurd ho (by simp)⟩
    | run o =>
      rcases runProject_cases d cwd o with
        ⟨e, hload, hrun⟩ | ⟨file, result, d', hload, hrun, hproject⟩
      · exact ⟨_, d, hrun, fun _ => rfl, fun _ => rfl, fun _ _ hcode => absurd hcode (by decide)⟩
      · refine ⟨_, d', hproject, fun hspared => ?_, ?_, ?_⟩
        · have hleft := run_spares hd cwd (o.projectRoot.getD ".")
            (s := file.runSettings (o.projectRoot.getD ".") o.dryRun o.diff)
            (hspared.run hparse hload)
          rw [hrun] at hleft
          exact hleft
        · cases result with
          | error e => exact fun _ => rfl
          | ok report => exact fun h => absurd rfl h
        · intro o' ho' hcode
          obtain rfl : o = o' := by simpa using ho'
          cases result with
          | error e => exact absurd hcode (by simp [Result.failed, RunError.exitCode])
          | ok report =>
            have hpatched := run_patched hrun
            have hdiff := (parse?_flags hparse).2
            refine ⟨file, report, congrArg Prod.fst hload, hrun, fun ⟨hflag, hfiles⟩ => ?_,
              fun hnone => ?_⟩
            · refine reportText_of_changes ?_ hfiles
              rw [← hdiff.mpr hflag]
              exact hpatched
            · refine reportText_otherwise hpatched fun ⟨hwants, hfiles⟩ =>
                hnone ⟨hdiff.mp hwants, hfiles⟩

/-- A project whose second scan root is refused when the scripts below the first are known. -/
def lateRoot : Disk :=
  ⟨[([.text "w"], .dir 0o755),
    ([.text "w", .text "castfix.toml"],
      .file (.text "[scan]\nroots = [\"core\", \"a**\"]\n") 0o644),
    ([.text "w", .text "core"], .dir 0o755),
    ([.text "w", .text "core", .text "a.gd"], .file (.text "int(d.get(\"k\"))") 0o644)]⟩

/-- With a root refused late nothing is written, and otherwise what is printed is the summary and
the patch of the run. -/
theorem execute_effects_late :
    lateRoot.Sound ∧ Spared lateRoot [.text "w"] ["--diff"] ∧
    (execute (fileSystem [.text "w"]) ["--diff"]).run lateRoot = (.failed 1, lateRoot) ∧
    ∃ (result : Result) (d' : Disk) (report : Report) (patch : String),
      (execute (fileSystem [.text "w"]) ["--diff"]).run sharedScript = (result, d') ∧
      (run (Tree.store (fileSystem [.text "w"]) ".")
        (SettingsFile.standard.runSettings "." false true)).run sharedScript = (.ok report, d') ∧
      report.files ≠ [] ∧ report.patch = some patch ∧
      report.summary = "core/a.gd: 1 fixes\ncore/b.gd: 1 fixes\n\nTotal: 2 fixes\n" ∧
      result.output = report.summary ++ "\n" ++ patch := by
  have hd : lateRoot.Sound := .of_entries (by decide +kernel) (by decide +kernel)
  have hspared : Spared lateRoot [.text "w"] ["--diff"] := by
    have hroots : ((SettingsFile.load (fileSystem [.text "w"]) ".").run lateRoot).1.toOption.map
        (fun file => file.selection.roots) = some ["core", "a**"] := by decide +kernel
    have hrefused : (PathPattern.parse "a**".toList).toOption = none := by decide +kernel
    cases hload : ((SettingsFile.load (fileSystem [.text "w"]) ".").run lateRoot).1 with
    | error e => exact absurd hroots (by simp [hload, Except.toOption])
    | ok file =>
      rw [hload] at hroots
      cases hpattern : PathPattern.parse "a**".toList with
      | ok pattern =>
        rw [hpattern] at hrefused
        exact absurd hrefused (by simp [Except.toOption])
      | error e =>
        refine .refused (o := ⟨false, true, none⟩) (by decide) hload ?_ hpattern
        rw [show file.selection.roots = _ from Option.some.inj hroots]
        exact List.mem_cons_of_mem _ List.mem_cons_self
  refine ⟨hd, hspared, ?_, ?_⟩
  · have hresult : ((execute (fileSystem [.text "w"]) ["--diff"]).run lateRoot).1 = .failed 1 := by
      decide +kernel
    obtain ⟨result, d', hrun, hleft, -⟩ := execute_effects hd [.text "w"] ["--diff"]
    rw [hrun] at hresult
    rw [hrun, hleft hspared]
    exact Prod.ext hresult rfl
  · have hd' : sharedScript.Sound := .of_entries (by decide +kernel) (by decide +kernel)
    have hcode :
      ((execute (fileSystem [.text "w"]) ["--diff"]).run sharedScript).1.exitCode = 0 := by
      decide +kernel
    have hload : ((SettingsFile.load (fileSystem [.text "w"]) ".").run sharedScript).1.toOption =
        some .standard := by decide +kernel
    have htotals : ((run (Tree.store (fileSystem [.text "w"]) ".")
        (SettingsFile.standard.runSettings "." false true)).run sharedScript).1.toOption.map
          (fun r => (r.files.length, r.summary)) =
        some (2, "core/a.gd: 1 fixes\ncore/b.gd: 1 fixes\n\nTotal: 2 fixes\n") := by
      decide +kernel
    obtain ⟨result, d', hrun, -, -, htold⟩ := execute_effects hd' [.text "w"] ["--diff"]
    rw [hrun] at hcode
    obtain ⟨file, report, hfile, hreport, hpatch, -⟩ := htold ⟨false, true, none⟩ (by decide) hcode
    obtain rfl : file = .standard := by
      rw [show ((SettingsFile.load (fileSystem [.text "w"]) ".").run sharedScript).1 = _ from
        hfile] at hload
      exact Option.some.inj hload
    have hran : (run (Tree.store (fileSystem [.text "w"]) ".")
        (SettingsFile.standard.runSettings "." false true)).run sharedScript = (.ok report, d') :=
      hreport
    rw [hran] at htotals
    obtain ⟨hfiles, hsummary⟩ := Prod.mk.inj (Option.some.inj htotals)
    have hne : report.files ≠ [] := by
      intro hnil
      exact absurd hfiles (by simp [hnil])
    obtain ⟨patch, hpatched, houtput⟩ := hpatch ⟨List.mem_cons_self, hne⟩
    exact ⟨result, d', report, patch, hrun, hran, hne, hpatched, hsummary, houtput⟩

end CommandLine

end CastGuard
