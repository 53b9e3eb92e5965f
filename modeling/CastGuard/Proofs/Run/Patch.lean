/-
# `CastGuard.Proofs.Run.Patch` — the patch of a run says what the run writes

A run that collects a patch, dry or not, can be compared with the run that writes.  Its patch is
read back as one section for each script that is changed, in the order of the visits, and each
section turns the old text of its script into the text that writing leaves.  Scripts without a
section keep their texts.

Of the diff two facts are used, and no more: its hunks lead from the old text to the new one
(`applyHunks_hunks`), and the formatted diff of different texts is a header of two lines with at
least one hunk behind it (`formatted_format`).  From these `Proofs.Diff` has it that sections are
read back and turn old texts into new ones.  What is left is to follow the report through the
visits: one visit adds the section of its script, if that changes (`visit_gains`), and since the
scripts are different ones, each visit finds the text that its script had at the start.
-/
import CastGuard.Proofs.Diff.Reading
import CastGuard.Proofs.Run.Atomicity
import Mathlib.Data.List.Basic

namespace CastGuard

open ScriptPath Diff

/-- The section of a script in the patch of a run, if the run changes the script. -/
def Memory.section? (fixer : Fixer) (mem : Memory) (path : String) : Option Section :=
  (mem.get? path).bind fun before =>
    if (fixer.fix before).text = before then none
    else some (sectionOf path before (fixer.fix before).text)

theorem Memory.section?_congr {fixer : Fixer} {mem mem' : Memory} {path : String}
    (h : mem'.get? path = mem.get? path) : mem'.section? fixer path = mem.section? fixer path := by
  rw [Memory.section?, h]
  rfl

theorem Memory.section?_eq_some_iff {fixer : Fixer} {mem : Memory} {path : String}
    {sec : Section} :
    mem.section? fixer path = some sec ↔
      ∃ before, mem.get? path = some before ∧ (fixer.fix before).text ≠ before ∧
        sec = sectionOf path before (fixer.fix before).text := by
  unfold Memory.section?
  rw [Option.bind_eq_some_iff]
  refine exists_congr fun before => and_congr_right fun _ => ?_
  by_cases h : (fixer.fix before).text = before
  · simp [h]
  · simp [h, eq_comm]

/-! ## What visits add to a report -/

/-- The second report has some sections more than the first. -/
structure Report.Gains (r r' : Report) (ss : List Section) : Prop where
  files : r'.files.map FileReport.path = r.files.map FileReport.path ++ ss.map Section.path
  patch : r'.patch.map String.toList =
    r.patch.map fun text => text.toList ++ ss.flatMap Section.written

theorem Report.Gains.trans {r r' r'' : Report} {ss ss' : List Section} (h : r.Gains r' ss)
    (h' : r'.Gains r'' ss') : r.Gains r'' (ss ++ ss') := by
  refine ⟨by rw [h'.files, h.files, List.map_append, List.append_assoc], ?_⟩
  rw [h'.patch]
  have hpatch := h.patch
  cases hr : r.patch with
  | none =>
    rw [hr, Option.map_none, Option.map_eq_none_iff] at hpatch
    rw [hpatch, Option.map_none, Option.map_none]
  | some text =>
    rw [hr, Option.map_some] at hpatch
    obtain ⟨text', htext', heq⟩ := Option.map_eq_some_iff.mp hpatch
    rw [htext', Option.map_some, Option.map_some, heq, List.flatMap_append, List.append_assoc]

theorem Report.gains_scan (r : Report) : r.Gains r.scan [] := by
  refine ⟨by simp [Report.scan], ?_⟩
  cases h : r.patch <;> simp [Report.scan, h]

theorem Report.gains_change (r : Report) {path before : String} {o : Outcome}
    (hne : o.text ≠ before) :
    r.Gains (r.scan.change path before o) [sectionOf path before o.text] := by
  refine ⟨by simp [Report.change, Report.scan, sectionOf], ?_⟩
  have hwritten := filePatch_eq_written path hne.symm
  cases h : r.patch <;> simp [Report.change, Report.scan, h, hwritten]

theorem withFaults_nil (store : Store (StateM Memory)) : store.withFaults [] = store := rfl

theorem not_fails {dryRun : Bool} {fixer : Fixer} {mem : Memory} {path : String} {e : StoreError} :
    ¬ Fails [] dryRun fixer mem path e := by
  rintro (hfault | ⟨-, -, -, -, hfault⟩)
  · exact absurd hfault (by simp [faultFor?])
  · exact absurd hfault (by simp [faultFor?])

section Visits

variable (fixer : Fixer) {mem : Memory}

theorem visit_gains (hmem : mem.scripts.Ordered) (r : Report) {path : String}
    (hpath : path ∈ mem.scripts.paths) :
    ∃ r' mem', (visit Memory.store fixer r path).run mem = (.ok r', mem') ∧
      r'.dryRun = r.dryRun ∧ mem.Rewrites r.dryRun fixer [path] mem' ∧
      r.Gains r' (mem.section? fixer path).toList := by
  obtain ⟨text, htext⟩ : ∃ text, mem.get? path = some text := PathMap.exists_get? hpath
  have hrun := visit_run [] fixer htext r
  rw [withFaults_nil] at hrun
  rcases visit_memory [] fixer hmem r hpath with
    ⟨e, hfails, -⟩ | ⟨-, r', mem', hvisit, hdry, hrewrites⟩
  · exact absurd hfails not_fails
  · rw [withFaults_nil] at hvisit
    refine ⟨r', mem', hvisit, hdry, hrewrites, ?_⟩
    rw [hvisit] at hrun
    have hfirst := congrArg Prod.fst hrun
    by_cases hfix : (fixer.fix text).text = text
    · obtain rfl : r' = r.scan := by simpa [faultFor?, hfix] using hfirst
      simpa [Memory.section?, htext, hfix] using r.gains_scan
    · obtain rfl : r' = r.scan.change path text (fixer.fix text) := by
        cases hr : r.dryRun <;> simpa [faultFor?, hfix, hr] using hfirst
      simpa [Memory.section?, htext, hfix] using r.gains_change hfix

theorem visitAll_gains (hmem : mem.scripts.Ordered) (r : Report) {paths : List String}
    (hpaths : ∀ p ∈ paths, p ∈ mem.scripts.paths)
    (hdistinct : paths.Pairwise fun p q => same p q = false) :
    ∃ r' mem', (visitAll Memory.store fixer r paths).run mem = (.ok r', mem') ∧
      mem.Rewrites r.dryRun fixer paths mem' ∧
      r.Gains r' (paths.filterMap (mem.section? fixer)) := by
  induction paths generalizing mem r with
  | nil =>
    refine ⟨r, mem, rfl, .refl .., ⟨by simp, ?_⟩⟩
    cases r.patch <;> simp
  | cons path paths ih =>
    obtain ⟨hpath, hrest⟩ := List.forall_mem_cons.mp hpaths
    obtain ⟨hfirst, hlater⟩ := List.pairwise_cons.mp hdistinct
    obtain ⟨r₁, mem₁, hvisit, hdry, hrewrites, hgains⟩ := visit_gains fixer hmem r hpath
    have hmem₁ : mem₁.scripts.Ordered := by
      rw [PathMap.Ordered, hrewrites.paths]
      exact hmem
    obtain ⟨r', mem', hrun, hrewrites', hgains'⟩ :=
      ih hmem₁ r₁ (hrewrites.paths ▸ hrest) hlater
    -- the later visits find what was there at the start
    have hsections : paths.filterMap (mem₁.section? fixer) = paths.filterMap (mem.section? fixer) :=
      List.filterMap_congr fun q hq => Memory.section?_congr (hrewrites.get?_later hfirst q hq)
    rw [hdry] at hrewrites'
    refine ⟨r', mem', ?_, hrewrites.cons hrewrites' hfirst, ?_⟩
    · unfold visitAll
      rw [run_bind_of_run hvisit]
      exact hrun
    · have hall := hgains.trans hgains'
      rw [hsections] at hall
      cases hsec : mem.section? fixer path with
      | none => simpa [List.filterMap_cons, hsec] using hall
      | some sec => simpa [List.filterMap_cons, hsec] using hall

end Visits

/-! ## Whole runs -/

/-- A run without faults succeeds, and its report has the sections of the scripts that change. -/
theorem run_gains {mem : Memory} (hmem : mem.scripts.Ordered) (s : RunSettings)
    (hstyle : s.style.Sound) :
    ∃ report mem', (run Memory.store s).run mem = (.ok report, mem') ∧
      mem.Rewrites s.dryRun ⟨s.style.rules⟩ (mem.discover s.selection) mem' ∧
      (Report.start s).Gains report
        ((mem.discover s.selection).filterMap (mem.section? ⟨s.style.rules⟩)) := by
  have hdistinct : (mem.discover s.selection).Pairwise fun p q => same p q = false :=
    (discover_ordered hmem s.selection).imp not_same_of_before
  obtain ⟨report, mem', hvisits, hrewrites, hgains⟩ :=
    visitAll_gains ⟨s.style.rules⟩ hmem (.start s)
    (fun p hp => (List.mem_filter.mp hp).1) hdistinct
  refine ⟨report, mem', ?_, hrewrites, hgains⟩
  have hdiscover := discover_memory [] s.selection mem
  rw [withFaults_nil] at hdiscover
  rw [run, Fixer.ofStyle_eq_ok_iff.mpr ⟨hstyle, rfl⟩, run_bind_of_run hdiscover]
  exact hvisits

theorem Memory.Rewrites.changed_iff {fixer : Fixer} {done : List String} {mem mem' : Memory}
    (h : mem.Rewrites false fixer done mem') {path : String} (hpath : path ∈ done) :
    mem'.get? path ≠ mem.get? path ↔ (mem.section? fixer path).isSome = true := by
  obtain ⟨text, hold, hnew⟩ := h.fixed rfl path hpath
  rw [hold, hnew, Memory.section?, hold, Option.bind_some]
  by_cases hfix : (fixer.fix text).text = text <;> simp [hfix]

theorem Memory.get?_of_same (mem : Memory) {p q : String} (h : same p q = true) :
    mem.get? p = mem.get? q := by
  unfold Memory.get? PathMap.get? same
  rw [same_iff.mp h]

theorem Memory.Rewrites.paths_sections {fixer : Fixer} {done : List String} {mem mem' : Memory}
    (h : mem.Rewrites false fixer done mem') :
    (done.filterMap (mem.section? fixer)).map Section.path =
      done.filter (fun p => mem'.get? p ≠ mem.get? p) := by
  rw [List.map_filterMap, ← List.filterMap_eq_filter]
  refine List.filterMap_congr fun path hpath => ?_
  have hchanged := h.changed_iff hpath
  cases hsec : mem.section? fixer path with
  | none =>
    have hkept : mem'.get? path = mem.get? path := by simpa [hsec] using hchanged
    simp [Option.guard, hkept]
  | some sec =>
    have hnew : mem'.get? path ≠ mem.get? path := by simpa [hsec] using hchanged
    obtain ⟨before, -, -, rfl⟩ := Memory.section?_eq_some_iff.mp hsec
    simp [Option.guard, hnew, sectionOf]

theorem Memory.Rewrites.get?_unlisted {fixer : Fixer} {done : List String} {mem mem' : Memory}
    (h : mem.Rewrites false fixer done mem') {q : String}
    (hq : ∀ sec ∈ done.filterMap (mem.section? fixer), same q sec.path = false) :
    mem'.get? q = mem.get? q := by
  by_cases hdone : ∃ p ∈ done, same q p = true
  · obtain ⟨p, hp, hsame⟩ := hdone
    rw [mem.get?_of_same hsame, mem'.get?_of_same hsame]
    by_contra hne
    obtain ⟨sec, hsec⟩ := Option.isSome_iff_exists.mp ((h.changed_iff hp).mp hne)
    have hkept := hq sec (List.mem_filterMap.mpr ⟨p, hp, hsec⟩)
    obtain ⟨before, -, -, rfl⟩ := Memory.section?_eq_some_iff.mp hsec
    simp [sectionOf, hsame] at hkept
  · refine h.other q fun p hp => ?_
    rw [← Bool.not_eq_true]
    exact fun hsame => hdone ⟨p, hp, hsame⟩

/-- The patch of a run is read back as one section for each script that writing changes, in the
order of the visits.  Each section has the hunks of the formatted diff and turns the old text of its
script into the text that is written, and scripts without a section keep theirs. -/
theorem patch_tells_writing {mem : Memory} (hmem : mem.Built)
    (hpaths : ∀ p ∈ mem.scripts.paths, '\n' ∉ p.toList) (s : RunSettings)
    (hstyle : s.style.Sound) (hpatch : s.wantsPatch = true) :
    ∃ report mem₁ written mem₂ patch sections,
      (run Memory.store s).run mem = (.ok report, mem₁) ∧
      (run Memory.store { s with dryRun := false }).run mem = (.ok written, mem₂) ∧
      report.patch = some patch ∧
      patch.toList = sections.flatMap Section.written ∧
      readPatch? patch.toList = some sections ∧
      sections.map Section.path = report.files.map FileReport.path ∧
      sections.map Section.path =
        (mem.discover s.selection).filter (fun p => mem₂.get? p ≠ mem.get? p) ∧
      (∀ sec ∈ sections, sec.hunks ≠ [] ∧ ∃ before after, mem.get? sec.path = some before ∧
        mem₂.get? sec.path = some after ∧
        Formatted (Diff.format before.toList after.toList) sec.hunks ∧
        sec.apply before = some after) ∧
      ∀ q, (∀ sec ∈ sections, same q sec.path = false) → mem₂.get? q = mem.get? q := by
  obtain ⟨report, mem₁, hrun, -, hgains⟩ := run_gains hmem.ordered s hstyle
  obtain ⟨written, mem₂, hwrite, hrewrites, -⟩ :=
    run_gains hmem.ordered { s with dryRun := false } hstyle
  generalize hsections :
    (mem.discover s.selection).filterMap (mem.section? ⟨s.style.rules⟩) = sections
    at hgains
  have hmembers : ∀ sec ∈ sections, ∃ path ∈ mem.discover s.selection,
      mem.section? ⟨s.style.rules⟩ path = some sec := by
    intro sec hsec
    rw [← hsections] at hsec
    exact List.mem_filterMap.mp hsec
  have hreadable : ∀ sec ∈ sections, sec.Readable := by
    intro sec hsec
    obtain ⟨path, hpath, hsome⟩ := hmembers sec hsec
    obtain ⟨before, -, hne, rfl⟩ := Memory.section?_eq_some_iff.mp hsome
    exact readable_sectionOf (hpaths path (List.mem_filter.mp hpath).1) hne.symm
  have hstart : (Report.start s).patch = some "" := by simp [Report.start, hpatch]
  obtain ⟨patch, hreport, htext⟩ : ∃ patch, report.patch = some patch ∧
      patch.toList = sections.flatMap Section.written := by
    have hgain := hgains.patch
    rw [hstart, Option.map_some] at hgain
    obtain ⟨patch, hreport, htext⟩ := Option.map_eq_some_iff.mp hgain
    exact ⟨patch, hreport, by simpa using htext⟩
  have hfiles : sections.map Section.path = report.files.map FileReport.path := by
    simpa [Report.start] using hgains.files.symm
  refine ⟨report, mem₁, written, mem₂, patch, sections, hrun, hwrite, hreport, htext, ?_, hfiles,
    ?_, ?_, ?_⟩
  · rw [htext]
    exact readPatch?_written hreadable
  · rw [← hsections]
    exact hrewrites.paths_sections
  · intro sec hsec
    obtain ⟨path, hpath, hsome⟩ := hmembers sec hsec
    obtain ⟨before, hbefore, hne, rfl⟩ := Memory.section?_eq_some_iff.mp hsome
    obtain ⟨text, hold, hnew⟩ := hrewrites.fixed rfl path hpath
    obtain rfl : before = text := Option.some.inj (hbefore.symm.trans hold)
    exact ⟨(hreadable _ hsec).changed, before, _, hbefore, hnew, formatted_format hne.symm,
      apply_sectionOf ..⟩
  · intro q hq
    refine hrewrites.get?_unlisted fun sec hsec => hq sec ?_
    rwa [← hsections]

/-- Scripts with a line that looks like the header of a hunk, with line ends of two characters, and
without a last line end. -/
def oddScripts : Memory :=
  .ofList [("core/a.gd", "@@ -1 +1 @@\r\nreturn d as ItemData"), ("core/b.gd", "--- a\n+++ b\n"),
    ("core/c.gd", "--- a/c\nx = int(d.get(\"k\"))\n")]

theorem patch_tells_writing_odd :
    oddScripts.Built ∧ (∀ p ∈ oddScripts.scripts.paths, '\n' ∉ p.toList) ∧ Style.standard.Sound ∧
    ∃ report mem₁ written mem₂ patch sections,
      (run Memory.store ⟨".", .standard, .standard, true, true⟩).run oddScripts =
        (.ok report, mem₁) ∧
      (run Memory.store ⟨".", .standard, .standard, false, true⟩).run oddScripts =
        (.ok written, mem₂) ∧
      report.patch = some patch ∧ readPatch? patch.toList = some sections ∧
      sections.map Section.path = ["core/a.gd", "core/c.gd"] ∧
      (∀ sec ∈ sections, ∃ before after, oddScripts.get? sec.path = some before ∧
        mem₂.get? sec.path = some after ∧
        Formatted (Diff.format before.toList after.toList) sec.hunks ∧
        sec.apply before = some after) ∧
      mem₂.get? "core/a.gd" = some ("@@ -1 +1 @@\r\nvar _return_res: Resource = d\n" ++
        "return _return_res if _return_res is ItemData else null") := by
  have hbuilt : oddScripts.Built := .ofList _
  have hlines : ∀ p ∈ oddScripts.scripts.paths, '\n' ∉ p.toList := by decide +kernel
  have hpaths : ((run Memory.store ⟨".", .standard, .standard, true, true⟩).run
      oddScripts).1.toOption.map (fun r => r.files.map FileReport.path) =
        some ["core/a.gd", "core/c.gd"] := by decide +kernel
  have htext : ((run Memory.store ⟨".", .standard, .standard, false, true⟩).run
      oddScripts).2.get? "core/a.gd" = some ("@@ -1 +1 @@\r\nvar _return_res: Resource = d\n" ++
        "return _return_res if _return_res is ItemData else null") := by decide +kernel
  obtain ⟨report, mem₁, written, mem₂, patch, sections, hrun, hwrite, hpatch, -, hread, hfiles, -,
      happly, -⟩ :=
    patch_tells_writing hbuilt hlines
      ⟨".", .standard, .standard, true, true⟩ Style.standard_sound rfl
  rw [hrun] at hpaths
  rw [hwrite] at htext
  refine ⟨hbuilt, hlines, Style.standard_sound, report, mem₁, written, mem₂, patch, sections, hrun,
    hwrite, hpatch, hread, hfiles.trans (Option.some.inj hpaths), fun sec hsec => ?_, htext⟩
  exact (happly sec hsec).2

end CastGuard
