/-
# `CastGuard.Proofs.Run.Accounting` — the books of a run

The report of a run over scripts in memory can be worked out from memory alone, without running
anything (`Memory.reported`): each visit finds its script as it was at the start, since no other
visit touches it.  The rest is read off that report (`Report.Accounts`).  It lists the selected
scripts in which fixes are made, in order and each once; the fixes of a script are those it lists by
rule, and the two totals of the report agree.

Scripts are listed because their texts differ, and the books are about fixes.  That the two are the
same scripts is what `CastGuard.Proofs.Fixer.Growth` is for.
-/
import CastGuard.Proofs.Fixer.Growth
import CastGuard.Proofs.Run.Patch
import CastGuard.Proofs.Run.Preview

namespace CastGuard

open ScriptPath

/-! ## The report that memory foretells -/

/-- The report after visits to some scripts, each as memory has it. -/
def Memory.reported (fixer : Fixer) (mem : Memory) : Report → List String → Report
  | r, [] => r
  | r, path :: paths =>
    match mem.get? path with
    | none => mem.reported fixer r paths
    | some before => mem.reported fixer (r.after fixer path before) paths

section Visits

variable (fixer : Fixer) {mem mem' : Memory}

theorem Memory.reported_congr {paths : List String}
    (h : ∀ path ∈ paths, mem'.get? path = mem.get? path)
    (r : Report) : mem'.reported fixer r paths = mem.reported fixer r paths := by
  induction paths generalizing r with
  | nil => rfl
  | cons path paths ih =>
    obtain ⟨hpath, hrest⟩ := List.forall_mem_cons.mp h
    unfold Memory.reported
    rw [hpath]
    cases mem.get? path with
    | none => exact ih hrest r
    | some before => exact ih hrest _

theorem visit_after {path text : String} (h : mem.get? path = some text) (r : Report) :
    ((visit Memory.store fixer r path).run mem).1 = .ok (r.after fixer path text) := by
  have hrun := visit_run [] fixer h r
  rw [withFaults_nil] at hrun
  rw [hrun, Report.after]
  by_cases hfix : (fixer.fix text).text = text
  · simp [faultFor?, hfix]
  · cases hdry : r.dryRun <;> simp [faultFor?, hfix]

theorem visitAll_reported (hmem : mem.scripts.Ordered) (r : Report) {paths : List String}
    (hpaths : ∀ p ∈ paths, p ∈ mem.scripts.paths)
    (hdistinct : paths.Pairwise fun p q => same p q = false) :
    ((visitAll Memory.store fixer r paths).run mem).1 = .ok (mem.reported fixer r paths) := by
  induction paths generalizing mem r with
  | nil => rfl
  | cons path paths ih =>
    obtain ⟨hpath, hrest⟩ := List.forall_mem_cons.mp hpaths
    obtain ⟨hfirst, hlater⟩ := List.pairwise_cons.mp hdistinct
    obtain ⟨text, htext⟩ : ∃ text, mem.get? path = some text := PathMap.exists_get? hpath
    obtain ⟨r₁, mem₁, hvisit, -, hrewrites, -⟩ := visit_gains fixer hmem r hpath
    have hr₁ : r₁ = r.after fixer path text := by
      have hafter := visit_after fixer htext r
      rw [hvisit] at hafter
      exact Except.ok.inj hafter
    have hmem₁ : mem₁.scripts.Ordered := by
      rw [PathMap.Ordered, hrewrites.paths]
      exact hmem
    have hlast := ih hmem₁ r₁ (hrewrites.paths ▸ hrest) hlater
    rw [Memory.reported_congr fixer (hrewrites.get?_later hfirst), hr₁] at hlast
    unfold visitAll Memory.reported
    rw [run_bind_of_run hvisit, htext, hr₁]
    exact hlast

end Visits

/-! ## What that report says -/

/-- The entry of a script in a report, if the script changes. -/
def Memory.entry? (fixer : Fixer) (dryRun : Bool) (mem : Memory) (path : String) :
    Option FileReport :=
  (mem.get? path).bind fun before =>
    if (fixer.fix before).text = before then none
    else some ⟨path, (fixer.fix before).fixes, (fixer.fix before).byRule, !dryRun⟩

section Reported

variable (fixer : Fixer) {mem : Memory}

theorem Report.files_after (r : Report) (path before : String) :
    (r.after fixer path before).files = r.files ++
      (if (fixer.fix before).text = before then none
        else some ⟨path, (fixer.fix before).fixes, (fixer.fix before).byRule, !r.dryRun⟩ :
          Option FileReport).toList := by
  unfold Report.after
  split
  · simp [Report.scan]
  · simp [Report.change, Report.scan]

theorem Memory.files_reported (r : Report) (paths : List String) :
    (mem.reported fixer r paths).files =
      r.files ++ paths.filterMap (mem.entry? fixer r.dryRun) := by
  induction paths generalizing r with
  | nil => simp [Memory.reported]
  | cons path paths ih =>
    unfold Memory.reported
    cases hget : mem.get? path with
    | none => simp [ih, Memory.entry?, hget]
    | some before =>
      have hentry : mem.entry? fixer r.dryRun path = if (fixer.fix before).text = before then none
          else some ⟨path, (fixer.fix before).fixes, (fixer.fix before).byRule, !r.dryRun⟩ := by
        rw [Memory.entry?, hget, Option.bind_some]
      simp only [ih, Report.files_after, Report.dryRun_after, ← hentry]
      cases hcase : mem.entry? fixer r.dryRun path with
      | none => simp [hcase]
      | some f => simp [hcase]

theorem Memory.scanned_reported (r : Report) {paths : List String}
    (hpaths : ∀ p ∈ paths, p ∈ mem.scripts.paths) :
    (mem.reported fixer r paths).scanned = r.scanned + paths.length := by
  induction paths generalizing r with
  | nil => rfl
  | cons path paths ih =>
    obtain ⟨hpath, hrest⟩ := List.forall_mem_cons.mp hpaths
    obtain ⟨text, htext⟩ : ∃ text, mem.get? path = some text := PathMap.exists_get? hpath
    unfold Memory.reported
    rw [htext]
    simp only [ih _ hrest, Report.scanned_after, List.length_cons]
    omega

theorem Memory.dryRun_reported (r : Report) (paths : List String) :
    (mem.reported fixer r paths).dryRun = r.dryRun := by
  induction paths generalizing r with
  | nil => rfl
  | cons path paths ih =>
    unfold Memory.reported
    cases mem.get? path with
    | none => exact ih r
    | some before => rw [ih, Report.dryRun_after]

/-- The two kinds of run differ in their flags alone. -/
theorem Memory.written_reported (r : Report) (paths : List String) :
    (mem.reported fixer r paths).written = mem.reported fixer r.written paths := by
  induction paths generalizing r with
  | nil => rfl
  | cons path paths ih =>
    unfold Memory.reported
    cases mem.get? path with
    | none => exact ih r
    | some before => simp only [ih, Report.written_after]

end Reported

/-! ## Totals -/

theorem Report.total_totalsByRule (r : Report) :
    r.totalsByRule.total = sumOf (fun f => f.byRule.total) r.files := by
  have hfold : ∀ (fs : List FileReport) (t : Tally),
      (fs.foldl (fun t f => t.merge f.byRule) t).total =
        t.total + sumOf (fun f => f.byRule.total) fs := by
    intro fs
    induction fs with
    | nil => exact fun t => rfl
    | cons f fs ih =>
      intro t
      rw [List.foldl_cons, ih, Tally.total_merge, sumOf_cons]
      omega
  have hall := hfold r.files []
  rwa [show Tally.total [] = 0 from rfl, Nat.zero_add] at hall

theorem sumOf_congr {α : Type} {count count' : α → Nat} {as : List α}
    (h : ∀ a ∈ as, count a = count' a) :
    sumOf count as = sumOf count' as := by
  induction as with
  | nil => rfl
  | cons a as ih =>
    obtain ⟨ha, has⟩ := List.forall_mem_cons.mp h
    rw [sumOf_cons, sumOf_cons, ha, ih has]

/-! ## Whole runs -/

/-- The books of a report are in order: they list the selected scripts in which fixes are made, with
these fixes, and add up. -/
structure Report.Accounts (mem : Memory) (s : RunSettings) (r : Report) : Prop where
  scanned : r.scanned = (mem.discover s.selection).length
  ordered : (r.files.map FileReport.path).Pairwise fun p q => before p q = true
  once : (r.files.map FileReport.path).Nodup
  listed : ∀ path, path ∈ r.files.map FileReport.path ↔ path ∈ mem.discover s.selection ∧
    ∃ text, mem.get? path = some text ∧ 0 < ((Fixer.mk s.style.rules).fix text).fixes
  entries : ∀ f ∈ r.files, ∃ text, mem.get? f.path = some text ∧
    f.fixes = ((Fixer.mk s.style.rules).fix text).fixes ∧
    f.byRule = ((Fixer.mk s.style.rules).fix text).byRule ∧ f.written = !s.dryRun
  fixes : ∀ f ∈ r.files, f.fixes = f.byRule.total
  total : r.totalFixes = r.totalsByRule.total
  flag : r.dryRun = s.dryRun

theorem Memory.entry?_eq_some_iff {fixer : Fixer} {dryRun : Bool} {mem : Memory} {path : String}
    {f : FileReport} :
    mem.entry? fixer dryRun path = some f ↔ ∃ text, mem.get? path = some text ∧
      (fixer.fix text).text ≠ text ∧
      f = ⟨path, (fixer.fix text).fixes, (fixer.fix text).byRule, !dryRun⟩ := by
  unfold Memory.entry?
  rw [Option.bind_eq_some_iff]
  refine exists_congr fun text => and_congr_right fun _ => ?_
  by_cases h : (fixer.fix text).text = text
  · simp [h]
  · simp [h, eq_comm]

theorem Memory.map_path_entries (fixer : Fixer) (dryRun : Bool) (mem : Memory)
    (paths : List String) :
    (paths.filterMap (mem.entry? fixer dryRun)).map FileReport.path =
      paths.filter fun path => (mem.entry? fixer dryRun path).isSome := by
  induction paths with
  | nil => rfl
  | cons path paths ih =>
    cases hentry : mem.entry? fixer dryRun path with
    | none => simp [hentry, ih]
    | some f =>
      obtain ⟨text, -, -, rfl⟩ := Memory.entry?_eq_some_iff.mp hentry
      simp [hentry, ih]

theorem Memory.accounts_reported {mem : Memory} (hmem : mem.scripts.Ordered) (s : RunSettings)
    (hs : s.style.Sound) :
    (mem.reported ⟨s.style.rules⟩ (.start s) (mem.discover s.selection)).Accounts mem s := by
  have hfiles := mem.files_reported ⟨s.style.rules⟩ (.start s) (mem.discover s.selection)
  have hselected : ∀ p ∈ mem.discover s.selection, p ∈ mem.scripts.paths := fun p hp =>
    (List.mem_filter.mp hp).1
  have hscanned := mem.scanned_reported ⟨s.style.rules⟩ (.start s) hselected
  have hflag := mem.dryRun_reported ⟨s.style.rules⟩ (.start s) (mem.discover s.selection)
  generalize mem.reported ⟨s.style.rules⟩ (.start s) (mem.discover s.selection) = r at *
  have hpaths :=
    mem.map_path_entries ⟨s.style.rules⟩ (Report.start s).dryRun (mem.discover s.selection)
  rw [show (Report.start s).files = [] from rfl, List.nil_append] at hfiles
  rw [← hfiles] at hpaths
  have hentries : ∀ f ∈ r.files, ∃ text, mem.get? f.path = some text ∧
      f.fixes = ((Fixer.mk s.style.rules).fix text).fixes ∧
      f.byRule = ((Fixer.mk s.style.rules).fix text).byRule ∧ f.written = !s.dryRun := by
    intro f hf
    rw [hfiles] at hf
    obtain ⟨path, -, hentry⟩ := List.mem_filterMap.mp hf
    obtain ⟨text, htext, -, rfl⟩ := Memory.entry?_eq_some_iff.mp hentry
    exact ⟨text, htext, rfl, rfl, rfl⟩
  have hfixes : ∀ f ∈ r.files, f.fixes = f.byRule.total := by
    intro f hf
    obtain ⟨text, -, hcount, hbyRule, -⟩ := hentries f hf
    rw [hcount, hbyRule, total_byRule]
  have hordered : (r.files.map FileReport.path).Pairwise fun p q => before p q = true := by
    rw [hpaths]
    exact (discover_ordered hmem s.selection).filter _
  refine ⟨hscanned.trans (Nat.zero_add _), hordered, ?_, fun path => ?_, hentries,
    hfixes, ?_, hflag⟩
  · refine hordered.imp fun {p q} hbefore heq => ?_
    exact absurd (not_same_of_before hbefore) (by simp [heq, same_refl])
  · -- a script is listed because its text differs, that is, because a fix was made
    rw [hpaths, List.mem_filter, Option.isSome_iff_exists]
    refine and_congr_right fun _ => ⟨?_, ?_⟩
    · rintro ⟨f, hentry⟩
      obtain ⟨text, htext, hne, -⟩ := Memory.entry?_eq_some_iff.mp hentry
      exact ⟨text, htext, Nat.pos_of_ne_zero fun hzero => hne ((fix_text_eq_iff hs text).mpr hzero)⟩
    · rintro ⟨text, htext, hpos⟩
      refine ⟨_, Memory.entry?_eq_some_iff.mpr ⟨text, htext, fun heq => ?_, rfl⟩⟩
      exact absurd ((fix_text_eq_iff hs text).mp heq) (Nat.ne_of_gt hpos)
  · rw [Report.total_totalsByRule]
    exact sumOf_congr hfixes

theorem run_reported {mem : Memory} (hmem : mem.scripts.Ordered) (s : RunSettings)
    (hs : s.style.Sound) :
    ∃ mem', (run Memory.store s).run mem =
      (.ok (mem.reported ⟨s.style.rules⟩ (.start s) (mem.discover s.selection)), mem') := by
  have hdistinct : (mem.discover s.selection).Pairwise fun p q => same p q = false :=
    (discover_ordered hmem s.selection).imp not_same_of_before
  have hvisits := visitAll_reported ⟨s.style.rules⟩ hmem (.start s)
    (fun p hp => (List.mem_filter.mp hp).1) hdistinct
  have hdiscover := discover_memory [] s.selection mem
  rw [withFaults_nil] at hdiscover
  refine ⟨_, Prod.ext ?_ rfl⟩
  rw [run, Fixer.ofStyle_eq_ok_iff.mpr ⟨hs, rfl⟩, run_bind_of_run hdiscover]
  exact hvisits

/-- A run over scripts in memory succeeds, dry or not, with its books in order.  The report of the
run that writes is that of the dry run, flags aside. -/
theorem run_accounts {mem : Memory} (hmem : mem.Built) (s : RunSettings) (hs : s.style.Sound) :
    ∃ preview mem₁ report mem₂,
      (run Memory.store { s with dryRun := true }).run mem = (.ok preview, mem₁) ∧
      (run Memory.store { s with dryRun := false }).run mem = (.ok report, mem₂) ∧
      preview.Accounts mem { s with dryRun := true } ∧
      report.Accounts mem { s with dryRun := false } ∧
      report = preview.written := by
  obtain ⟨mem₁, hdry⟩ := run_reported hmem.ordered { s with dryRun := true } hs
  obtain ⟨mem₂, hwet⟩ := run_reported hmem.ordered { s with dryRun := false } hs
  refine ⟨_, mem₁, _, mem₂, hdry, hwet, Memory.accounts_reported hmem.ordered _ hs,
    Memory.accounts_reported hmem.ordered _ hs, ?_⟩
  rw [Memory.written_reported]
  rfl

/-- Two scripts that need fixes, one with a call longer than its accessor, one that needs none, and
one outside the selection. -/
def bookedScripts : Memory :=
  .ofList [("core/b.gd",
    "x = int(d.get(\"k\",                         7))\nreturn d as ItemData\n"),
    ("core/a.gd", "pass\n"), ("addons/c.gd", "str(d.get(\"k\"))"),
    ("core/a/d.gd", "str(d.get(\"k\"))")]

theorem run_accounts_booked :
    bookedScripts.Built ∧ Style.standard.Sound ∧
    ∃ preview mem₁ report mem₂,
      (run Memory.store ⟨".", .standard, .standard, true, false⟩).run bookedScripts =
        (.ok preview, mem₁) ∧
      (run Memory.store ⟨".", .standard, .standard, false, false⟩).run bookedScripts =
        (.ok report, mem₂) ∧
      report.scanned = 3 ∧ report.files.map FileReport.path = ["core/a/d.gd", "core/b.gd"] ∧
      report.totalFixes = 3 ∧ report.totalsByRule.total = 3 ∧ report = preview.written := by
  have hbuilt : bookedScripts.Built := .ofList _
  have hpaths : ((run Memory.store ⟨".", .standard, .standard, false, false⟩).run
      bookedScripts).1.toOption.map (fun r =>
        (r.scanned, r.files.map FileReport.path, r.totalFixes)) =
        some (3, ["core/a/d.gd", "core/b.gd"], 3) := by decide +kernel
  obtain ⟨preview, mem₁, report, mem₂, hdry, hwet, -, hbooks, hwritten⟩ :=
    run_accounts hbuilt ⟨".", .standard, .standard, true, false⟩ Style.standard_sound
  rw [hwet] at hpaths
  obtain ⟨hscanned, hfiles, htotal⟩ : report.scanned = 3 ∧
      report.files.map FileReport.path = ["core/a/d.gd", "core/b.gd"] ∧ report.totalFixes = 3 := by
    simpa [Except.toOption] using hpaths
  exact ⟨hbuilt, Style.standard_sound, preview, mem₁, report, mem₂, hdry, hwet, hscanned,
    hfiles, htotal,
    hbooks.total ▸ htotal, hwritten⟩

end CastGuard
