/-
# `CastGuard.Proofs.Run.Preview` — what a dry run says about the run that writes

A dry run over a disk leaves the disk as it is, and it visits as many scripts as the run that
writes.  Its report is the report of the run that writes, flags aside, if writing one script never
changes what a later visit reads (`Apart`): a script that is changed must not be visited again under
another path, and the file that is put beside it must not be a script or a link.

The condition is needed.  Paths are told apart by their spelling and not by the file that they lead
to, so a script and a link to it are two scripts; a dry run finds the fixes twice, and a run that
writes finds them once (`linked_preview_differs`).
-/
import CastGuard.Proofs.Store.Discovery
import CastGuard.Proofs.Store.Replacing

namespace CastGuard

open Text Disk

/-! ## Reports -/

namespace Report

/-- The report of a dry run as that of a run that writes. -/
def written (r : Report) : Report :=
  { r with dryRun := false, files := r.files.map fun f => { f with written := true } }

@[simp] theorem totalFixes_written (r : Report) : r.written.totalFixes = r.totalFixes := by
  simp [totalFixes, written]

def after (fixer : Fixer) (r : Report) (path before : String) : Report :=
  if (fixer.fix before).text = before then r.scan else r.scan.change path before (fixer.fix before)

@[simp] theorem dryRun_after (fixer : Fixer) (r : Report) (path before : String) :
    (r.after fixer path before).dryRun = r.dryRun := by
  unfold after
  split <;> rfl

@[simp] theorem scanned_after (fixer : Fixer) (r : Report) (path before : String) :
    (r.after fixer path before).scanned = r.scanned + 1 := by
  unfold after
  split <;> rfl

theorem written_after (fixer : Fixer) {r : Report} (path before : String) :
    (r.after fixer path before).written = r.written.after fixer path before := by
  unfold after
  split
  · rfl
  · simp [written, scan, change]

end Report

/-! ## One visit -/

@[simp] theorem mapError_ok {ε ε' α : Type} (f : ε → ε') (a : α) :
    (Except.ok a : Except ε α).mapError f = .ok a := rfl

@[simp] theorem mapError_error {ε ε' α : Type} (f : ε → ε') (e : ε) :
    (Except.error e : Except ε α).mapError f = .error (f e) := rfl

section Visits

variable (cwd : Place) (root : String) (fixer : Fixer)

theorem read_run (d : Disk) (path : String) :
    ((Tree.store (fileSystem cwd) root).read path).run d =
      (((d.read cwd (ScriptPath.join root path)).mapError
        (RunError.io (ScriptPath.join root path))).mapError StoreError.known, d) := by
  have hread : (Tree.read (fileSystem cwd) root path).run d =
      ((d.read cwd (ScriptPath.join root path)).mapError
        (RunError.io (ScriptPath.join root path)), d) := run_bind_of_run (answers_ask _)
  exact run_bind_of_run hread

theorem visit_dry {d : Disk} {r : Report} (hr : r.dryRun = true) (path : String) :
    (visit (Tree.store (fileSystem cwd) root) fixer r path).run d =
      (((d.read cwd (ScriptPath.join root path)).mapError
        (RunError.io (ScriptPath.join root path))).map (r.after fixer path), d) := by
  unfold visit
  rw [run_bind_of_run (read_run cwd root d path)]
  cases d.read cwd (ScriptPath.join root path) with
  | error e => rfl
  | ok before =>
    simp only [mapError_ok, Except.map, Report.after]
    split
    · rfl
    · simp only [writeBack, hr, if_true]
      rfl

theorem read_eq_ok_iff {d : Disk} {path text : String} :
    d.read cwd path = .ok text ↔ ∃ p mode,
      d.target cwd path = .ok (p, .file (.text text) mode) := by
  cases h : d.target cwd path with
  | error e => simp [Disk.read, h]
  | ok found =>
    obtain ⟨q, e⟩ := found
    cases e with
    | file c mode => cases c <;> simp [Disk.read, h, eq_comm]
    | dir mode => simp [Disk.read, h]
    | link target => simp [Disk.read, h]

/-- A visit that writes fails and changes nothing, or leaves a script that is as it should be, or
replaces its text. -/
theorem visit_wet {d : Disk} (hd : d.Sound) {r : Report} (hr : r.dryRun = false)
    {path before : String}
    {p : Place} {mode : Mode}
    (htarget : d.target cwd (ScriptPath.join root path) = .ok (p, .file (.text before) mode))
    (hlink : (fixer.fix before).text ≠ before → ∀ t, d.get? (beside p) ≠ some (.link t)) :
    (∃ e, (visit (Tree.store (fileSystem cwd) root) fixer r path).run d = (.error e, d)) ∨
      ∃ d', (visit (Tree.store (fileSystem cwd) root) fixer r path).run d =
          (.ok (r.after fixer path before), d') ∧
        if (fixer.fix before).text = before then d' = d
        else d'.Sound ∧ d.Replaced d' p (fixer.fix before).text := by
  have hread : d.read cwd (ScriptPath.join root path) = .ok before :=
    (read_eq_ok_iff cwd).mpr ⟨p, mode, htarget⟩
  have hstore := read_run cwd root d path
  rw [hread] at hstore
  unfold visit
  rw [run_bind_of_run hstore]
  simp only [mapError_ok, Report.after]
  by_cases hfix : (fixer.fix before).text = before
  · simp only [hfix, if_true]
    exact .inr ⟨d, rfl, rfl⟩
  · simp only [hfix, if_false]
    have hwrite : ∀ {res : Except RunError Unit} {d' : Disk},
        (Tree.write (fileSystem cwd) root path (fixer.fix before).text).run d = (res, d') →
        (writeBack (Tree.store (fileSystem cwd) root) r.dryRun path (fixer.fix before).text).run d =
          (res.mapError .known, d') := by
      intro res d' hrun
      rw [writeBack, hr]
      exact run_bind_of_run hrun
    rcases write_run hd cwd (fixer.fix before).text htarget (hlink hfix) with
      ⟨e, hrun⟩ | ⟨d', hrun, hd', hreplaced⟩
    · exact .inl ⟨_, run_bind_of_run (hwrite hrun)⟩
    · exact .inr ⟨d', run_bind_of_run (hwrite hrun), hd', hreplaced⟩

/-! ## Visits that stay out of each other's way -/

def leadsTo? (d : Disk) (path : String) : Option Place :=
  (d.target cwd (ScriptPath.join root path)).toOption.map Prod.fst

/-- The place of a script, if it is to be changed. -/
def Fixer.rewrites? (fixer : Fixer) : Place × Entry → Option Place
  | (p, .file (.text before) _) => if (fixer.fix before).text = before then none else some p
  | _ => none

/-- The place that a visit writes to. -/
def writesTo? (d : Disk) (path : String) : Option Place :=
  (d.target cwd (ScriptPath.join root path)).toOption.bind fixer.rewrites?

/-- No visit touches what a later one reads. -/
structure Apart (d : Disk) (paths : List String) : Prop where
  once : paths.Pairwise fun path later => ∀ p ∈ writesTo? cwd root fixer d path,
    ∀ q ∈ leadsTo? cwd root d later, q ≠ p ∧ q ≠ beside p
  unlinked : ∀ path ∈ paths, ∀ p ∈ writesTo? cwd root fixer d path,
    (d.get? (beside p)).all (fun e => e.kind ≠ .link) = true

instance (d : Disk) (paths : List String) : Decidable (Apart cwd root fixer d paths) :=
  decidable_of_iff (_ ∧ _) ⟨fun ⟨h₁, h₂⟩ => ⟨h₁, h₂⟩, fun h => ⟨h.once, h.unlinked⟩⟩

theorem leadsTo?_eq {d : Disk} {path : String} {p : Place} {e : Entry}
    (h : d.target cwd (ScriptPath.join root path) = .ok (p, e)) :
    leadsTo? cwd root d path = some p := by
  rw [leadsTo?, h]
  rfl

theorem writesTo?_eq {d : Disk} {path before : String} {p : Place} {mode : Mode}
    (h : d.target cwd (ScriptPath.join root path) = .ok (p, .file (.text before) mode))
    (hfix : (fixer.fix before).text ≠ before) : writesTo? cwd root fixer d path = some p := by
  rw [writesTo?, h]
  exact if_neg hfix

theorem target_of_replaced {d d' : Disk} {p : Place} {text : String} (h : d.Replaced d' p text)
    {path : String} {q : Place} {e : Entry} (htarget : d.target cwd path = .ok (q, e)) (hq : q ≠ p)
    (hbeside : q ≠ beside p) : d'.target cwd path = .ok (q, e) := by
  refine target_congr [p, beside p] (fun x hx => ?_) (fun x hx => ?_) htarget
    (by simp [hq, hbeside])
  · exact h.other x (by simp_all) (by simp_all)
  · rcases List.mem_cons.mp hx with rfl | hx
    · obtain ⟨c, mode, hget, -⟩ := h.file
      simp [hget, Entry.kind]
    · rw [List.mem_singleton.mp hx]
      exact h.stale

section Apart

variable {cwd root fixer}

theorem Apart.target_eq {d d' : Disk} {path text : String} {paths : List String} {p : Place}
    (h : Apart cwd root fixer d (path :: paths))
    (hwrites : writesTo? cwd root fixer d path = some p)
    (hreplaced : d.Replaced d' p text)
    (hreadable : ∀ q ∈ paths, ∃ before, d.read cwd (ScriptPath.join root q) = .ok before) :
    ∀ q ∈ paths, d'.target cwd (ScriptPath.join root q) =
      d.target cwd (ScriptPath.join root q) := by
  intro later hlater
  obtain ⟨before, hread⟩ := hreadable later hlater
  obtain ⟨q, mode, htarget⟩ := (read_eq_ok_iff cwd).mp hread
  obtain ⟨hq, hbeside⟩ := (List.pairwise_cons.mp h.once).1 later hlater p hwrites q
    (leadsTo?_eq cwd root htarget)
  rw [htarget]
  exact target_of_replaced cwd hreplaced htarget hq hbeside

theorem Apart.of_replaced {d d' : Disk} {path text : String} {paths : List String} {p : Place}
    (h : Apart cwd root fixer d (path :: paths)) (hreplaced : d.Replaced d' p text)
    (hsame : ∀ q ∈ paths, d'.target cwd (ScriptPath.join root q) =
      d.target cwd (ScriptPath.join root q)) : Apart cwd root fixer d' paths := by
  have hwrites : ∀ q ∈ paths, writesTo? cwd root fixer d' q = writesTo? cwd root fixer d q := by
    intro q hq
    rw [writesTo?, writesTo?, hsame q hq]
  have hleads : ∀ q ∈ paths, leadsTo? cwd root d' q = leadsTo? cwd root d q := by
    intro q hq
    rw [leadsTo?, leadsTo?, hsame q hq]
  refine ⟨(List.pairwise_cons.mp h.once).2.imp_of_mem fun {q later} hq hlater honce => ?_, ?_⟩
  · rwa [hwrites q hq, hleads later hlater]
  · intro q hq x hx
    rw [hwrites q hq] at hx
    -- the new file is no link, and nothing else has become one
    by_cases hp : beside x = p
    · obtain ⟨c, mode, -, hnew⟩ := hreplaced.file
      simp [hp, hnew, Entry.kind]
    · by_cases hbeside : beside x = beside p
      · rw [hbeside, hreplaced.clean]
        rfl
      · rw [hreplaced.other _ hp hbeside]
        exact h.unlinked q (List.mem_cons_of_mem _ hq) x hx

end Apart

/-- What a dry run foresees: each script is read as it is. -/
def foresee (d : Disk) : Report → List String → Except RunError Report
  | r, [] => .ok r
  | r, path :: paths =>
    ((d.read cwd (ScriptPath.join root path)).mapError (.io (ScriptPath.join root path))).bind
      fun before => foresee d (r.after fixer path before) paths

theorem visitAll_dry {d : Disk} {r : Report} (hr : r.dryRun = true) (paths : List String) :
    d.Answers (visitAll (Tree.store (fileSystem cwd) root) fixer r paths)
      (foresee cwd root fixer d r paths) := by
  induction paths generalizing r with
  | nil => exact answers_pure _
  | cons path paths ih =>
    have hvisit := visit_dry cwd root fixer (d := d) hr path
    unfold visitAll foresee
    cases hread : d.read cwd (ScriptPath.join root path) with
    | error e =>
      rw [hread] at hvisit
      exact Answers.bind hvisit (answers_pure _)
    | ok before =>
      rw [hread] at hvisit
      exact Answers.bind hvisit (ih (by simpa using hr))

theorem foresee_congr {d d' : Disk} (r : Report) {paths : List String}
    (h : ∀ path ∈ paths, d'.read cwd (ScriptPath.join root path) =
      d.read cwd (ScriptPath.join root path)) :
    foresee cwd root fixer d' r paths = foresee cwd root fixer d r paths := by
  induction paths generalizing r with
  | nil => rfl
  | cons path paths ih =>
    obtain ⟨hpath, hrest⟩ := List.forall_mem_cons.mp h
    unfold foresee
    rw [hpath]
    cases d.read cwd (ScriptPath.join root path) with
    | error e => rfl
    | ok before => exact ih _ hrest

theorem readable_of_foresee {d : Disk} {r preview : Report} {paths : List String}
    (h : foresee cwd root fixer d r paths = .ok preview) :
    ∀ path ∈ paths, ∃ before, d.read cwd (ScriptPath.join root path) = .ok before := by
  induction paths generalizing r with
  | nil => exact fun _ hpath => absurd hpath List.not_mem_nil
  | cons path paths ih =>
    unfold foresee at h
    cases hread : d.read cwd (ScriptPath.join root path) with
    | error e => exact absurd h (by simp [hread, Except.bind])
    | ok before =>
      rw [hread] at h
      exact List.forall_mem_cons.mpr ⟨⟨before, hread⟩, ih h⟩

/-- Visits that stay apart find what was foreseen. -/
theorem visitAll_wet {d d₂ : Disk} (hd : d.Sound) {r preview report : Report} (hr : r.dryRun = true)
    {paths : List String} (hapart : Apart cwd root fixer d paths)
    (hdry : foresee cwd root fixer d r paths = .ok preview)
    (hwet : (visitAll (Tree.store (fileSystem cwd) root) fixer r.written paths).run d =
      (.ok report, d₂)) : report = preview.written := by
  induction paths generalizing d r with
  | nil =>
    obtain rfl := Except.ok.inj hdry
    exact (Except.ok.inj (congrArg Prod.fst hwet)).symm
  | cons path paths ih =>
    obtain ⟨before, hread⟩ := readable_of_foresee cwd root fixer hdry path List.mem_cons_self
    obtain ⟨p, mode, htarget⟩ := (read_eq_ok_iff cwd).mp hread
    have hlater : foresee cwd root fixer d (r.after fixer path before) paths = .ok preview := by
      unfold foresee at hdry
      rwa [hread] at hdry
    obtain ⟨honce, hrest⟩ := List.pairwise_cons.mp hapart.once
    unfold visitAll at hwet
    rcases visit_wet cwd root fixer hd (r := r.written) rfl htarget
        (fun hfix t hget => by
          have hunlinked := hapart.unlinked path List.mem_cons_self p
            (writesTo?_eq cwd root fixer htarget hfix)
          exact absurd hunlinked (by simp [hget, Entry.kind])) with
      ⟨e, hvisit⟩ | ⟨d', hvisit, hleft⟩
    · rw [run_bind_of_run hvisit] at hwet
      exact absurd (Prod.mk.inj hwet).1 (by simp)
    · rw [run_bind_of_run hvisit, ← Report.written_after] at hwet
      by_cases hfix : (fixer.fix before).text = before
      · rw [if_pos hfix] at hleft
        subst hleft
        exact ih hd (by simpa using hr) ⟨hrest,
          fun q hq => hapart.unlinked q (List.mem_cons_of_mem _ hq)⟩
          hlater hwet
      · rw [if_neg hfix] at hleft
        obtain ⟨hd', hreplaced⟩ := hleft
        have hsame := hapart.target_eq (writesTo?_eq cwd root fixer htarget hfix) hreplaced
          (readable_of_foresee cwd root fixer hlater)
        refine ih hd' (by simpa using hr) (hapart.of_replaced hreplaced hsame) ?_ hwet
        rw [← hlater]
        exact foresee_congr cwd root fixer _ fun q hq => by rw [Disk.read, Disk.read, hsame q hq]

end Visits

/-! ## Whole runs -/

section Reports

variable {σ : Type} (store : Store (StateM σ)) (fixer : Fixer)

/-- A visit that succeeds has read a text and adds to the report what is to be said of it. -/
theorem visit_eq_after {r r' : Report} {path : String} {st st' : σ}
    (h : (visit store fixer r path).run st = (.ok r', st')) :
    ∃ before, r' = r.after fixer path before := by
  unfold visit at h
  rcases hread : (store.read path).run st with ⟨x, st₁⟩
  rw [run_bind_of_run hread] at h
  cases x with
  | error e => exact absurd (Prod.mk.inj h).1 (by simp)
  | ok before =>
    refine ⟨before, ?_⟩
    unfold Report.after
    dsimp only at h
    split at h
    · next hfix => rw [if_pos hfix, Except.ok.inj (Prod.mk.inj h).1]
    · next hfix =>
      rcases hwrite : (writeBack store r.dryRun path (fixer.fix before).text).run st₁ with ⟨y, st₂⟩
      rw [run_bind_of_run hwrite] at h
      cases y with
      | error e => exact absurd (Prod.mk.inj h).1 (by simp)
      | ok _ => rw [if_neg hfix, Except.ok.inj (Prod.mk.inj h).1]

/-- What every visit keeps up, with the scripts that are still to come, holds when all went well. -/
theorem visitAll_induction {P : Report → List String → Prop}
    (hstep : ∀ r path before paths, P r (path :: paths) → P (r.after fixer path before) paths)
    {r r' : Report} {paths : List String} {st st' : σ} (hr : P r paths)
    (h : (visitAll store fixer r paths).run st = (.ok r', st')) : P r' [] := by
  induction paths generalizing r st with
  | nil =>
    obtain rfl := Except.ok.inj (Prod.mk.inj h).1
    exact hr
  | cons path paths ih =>
    unfold visitAll at h
    rcases hvisit : (visit store fixer r path).run st with ⟨x, st₁⟩
    rw [run_bind_of_run hvisit] at h
    cases x with
    | error e => exact absurd (Prod.mk.inj h).1 (by simp)
    | ok r₁ =>
      obtain ⟨before, rfl⟩ := visit_eq_after store fixer hvisit
      exact ih (hstep r path before paths hr) h

theorem visitAll_scanned {r r' : Report} {paths : List String} {st st' : σ}
    (h : (visitAll store fixer r paths).run st = (.ok r', st')) :
    r'.scanned = r.scanned + paths.length := by
  refine visitAll_induction store fixer
    (P := fun q rest => q.scanned + rest.length = r.scanned + paths.length)
    ?_ rfl h
  intro q path before rest hq
  rw [Report.scanned_after, ← hq, List.length_cons]
  omega

end Reports

/-- A run over a disk searches the disk as it is and then visits what was found. -/
theorem run_tree {d : Disk} (hd : d.Sound) (cwd : Place) (root : String) (s : RunSettings) :
    (∃ e, ∀ dryRun, (run (Tree.store (fileSystem cwd) root) { s with dryRun }).run d =
      (.error e, d)) ∨
      ∃ paths, ((Tree.discover (fileSystem cwd) root s.selection).run d).1 = .ok paths ∧
        ∀ dryRun, (run (Tree.store (fileSystem cwd) root) { s with dryRun }).run d =
          (visitAll (Tree.store (fileSystem cwd) root) ⟨s.style.rules⟩ (.start { s with dryRun })
            paths).run d := by
  cases hstyle : Fixer.ofStyle s.style with
  | error e => exact .inl ⟨.style e, fun dryRun => by rw [run, hstyle]; rfl⟩
  | ok fixer =>
    obtain ⟨-, rfl⟩ := Fixer.ofStyle_eq_ok_iff.mp hstyle
    obtain ⟨r, hr, -⟩ := answers_discover cwd hd root s.selection
    have hstore : ((Tree.store (fileSystem cwd) root).discover s.selection).run d =
        (r.mapError .known, d) := run_bind_of_run hr
    cases r with
    | error e =>
      exact .inl ⟨_, fun dryRun => by rw [run, hstyle]; exact run_bind_of_run hstore⟩
    | ok paths =>
      refine .inr ⟨paths, congrArg Prod.fst hr, fun dryRun => ?_⟩
      rw [run, hstyle]
      exact run_bind_of_run hstore

/-- A dry run changes nothing and visits as many scripts as the run that writes.  If no visit
touches what a later one reads, its report is that of the run that writes. -/
theorem preview_foretells {d : Disk} (hd : d.Sound) (cwd : Place) (root : String)
    (s : RunSettings) :
    ((run (Tree.store (fileSystem cwd) root) { s with dryRun := true }).run d).2 = d ∧
    ∀ preview report d₂,
      ((run (Tree.store (fileSystem cwd) root) { s with dryRun := true }).run d).1 = .ok preview →
      (run (Tree.store (fileSystem cwd) root) { s with dryRun := false }).run d = (.ok report, d₂) →
      report.scanned = preview.scanned ∧
      ((∀ paths, ((Tree.discover (fileSystem cwd) root s.selection).run d).1 = .ok paths →
          Apart cwd root ⟨s.style.rules⟩ d paths) →
        report = preview.written ∧ report.totalFixes = preview.totalFixes) := by
  rcases run_tree hd cwd root s with ⟨e, hrun⟩ | ⟨paths, hfound, hrun⟩
  · rw [hrun, hrun]
    exact ⟨rfl, fun preview report d₂ hdry => absurd hdry (by simp)⟩
  · have hforesee :=
      visitAll_dry cwd root ⟨s.style.rules⟩ (d := d) (r := .start { s with dryRun := true })
      rfl paths
    rw [hrun, hrun, show _ = _ from hforesee]
    refine ⟨rfl, fun preview report d₂ hdry hwet => ⟨?_, fun hapart => ?_⟩⟩
    · rw [visitAll_scanned _ _ hwet]
      rw [show foresee _ _ _ _ _ _ = _ from hdry] at hforesee
      exact (visitAll_scanned _ _ hforesee).symm
    · have hwritten := visitAll_wet cwd root _ hd rfl (hapart paths hfound) hdry hwet
      exact ⟨hwritten, by rw [hwritten, Report.totalFixes_written]⟩

/-! ## Disks with links -/

/-- A project with a script, a link to a script that stands outside the scanned directory, and a
file that is left over from a write. -/
def sharedScript : Disk :=
  ⟨[([.text "w"], .dir 0o755), ([.text "w", .text "core"], .dir 0o755),
    ([.text "w", .text "core", .text "a.gd"], .file (.text "int(d.get(\"k\"))") 0o600),
    ([.text "w", .text "core", .text "a.gd.castfix.tmp"], .file (.text "left over") 0o644),
    ([.text "w", .text "core", .text "b.gd"], .link (.text "../lib/b.gd")),
    ([.text "w", .text "lib"], .dir 0o755),
    ([.text "w", .text "lib", .text "b.gd"], .file (.text "str(d.get(\"k\"))") 0o644)]⟩

/-- A project with a script and a link to it in the same directory. -/
def linkedScript : Disk :=
  ⟨[([.text "w"], .dir 0o755), ([.text "w", .text "core"], .dir 0o755),
    ([.text "w", .text "core", .text "a.gd"], .file (.text "int(d.get(\"k\"))") 0o644),
    ([.text "w", .text "core", .text "b.gd"], .link (.text "a.gd"))]⟩

def coreRun (dryRun : Bool) : RunSettings :=
  ⟨".", ⟨["core"], [], []⟩, ⟨"DictUtils", "Resource", "null", ["ItemData"]⟩, dryRun, false⟩

theorem preview_foretells_shared :
    sharedScript.Sound ∧
    Apart [.text "w"] "." ⟨(coreRun true).style.rules⟩ sharedScript ["core/a.gd", "core/b.gd"] ∧
    ∃ preview report d₂,
      ((run (Tree.store (fileSystem [.text "w"]) ".") (coreRun true)).run sharedScript).1 =
        .ok preview ∧
      (run (Tree.store (fileSystem [.text "w"]) ".") (coreRun false)).run sharedScript =
        (.ok report, d₂) ∧
      report = preview.written ∧ report.totalFixes = 2 := by
  have hd : sharedScript.Sound := .of_entries (by decide +kernel) (by decide +kernel)
  have hapart : Apart [.text "w"] "." ⟨(coreRun true).style.rules⟩ sharedScript
      ["core/a.gd", "core/b.gd"] := by decide +kernel
  have hfound : ((Tree.discover (fileSystem [.text "w"]) "." (coreRun true).selection).run
      sharedScript).1.toOption = some ["core/a.gd", "core/b.gd"] := by decide +kernel
  have hdry : ((run (Tree.store (fileSystem [.text "w"]) ".") (coreRun true)).run
      sharedScript).1.toOption.isSome = true := by decide +kernel
  have hwet : ((run (Tree.store (fileSystem [.text "w"]) ".") (coreRun false)).run
      sharedScript).1.toOption.map Report.totalFixes = some 2 := by decide +kernel
  obtain ⟨-, hforetells⟩ := preview_foretells hd [.text "w"] "." (coreRun true)
  rcases hrun : (run (Tree.store (fileSystem [.text "w"]) ".") (coreRun false)).run sharedScript
    with ⟨report | report, d₂⟩
  · exact absurd hwet (by simp [hrun, Except.toOption])
  cases hpreview :
    ((run (Tree.store (fileSystem [.text "w"]) ".") (coreRun true)).run sharedScript).1 with
  | error e => exact absurd hdry (by simp [hpreview, Except.toOption])
  | ok preview =>
    obtain ⟨-, hreport⟩ := hforetells preview report d₂ hpreview hrun
    refine ⟨hd, hapart, preview, report, d₂, rfl, rfl, (hreport fun paths hpaths => ?_).1, ?_⟩
    · rw [hpaths] at hfound
      exact Option.some.inj hfound ▸ hapart
    · rw [hrun] at hwet
      exact Option.some.inj hwet

/-- A dry run reports a script once under each of its paths, and a run that writes only under the
first. -/
theorem linked_preview_differs :
    linkedScript.Sound ∧
    ((run (Tree.store (fileSystem [.text "w"]) ".") (coreRun true)).run linkedScript).1.toOption.map
      (fun r => (r.scanned, r.files.map fun f => (f.path, f.fixes), r.totalFixes)) =
        some (2, [("core/a.gd", 1), ("core/b.gd", 1)], 2) ∧
    ((run (Tree.store (fileSystem [.text "w"]) ".") (coreRun false)).run
      linkedScript).1.toOption.map
      (fun r => (r.scanned, r.files.map fun f => (f.path, f.fixes), r.totalFixes)) =
        some (2, [("core/a.gd", 1)], 1) := by
  refine ⟨.of_entries (by decide +kernel) (by decide +kernel), ?_, ?_⟩
  · decide +kernel
  · decide +kernel

end CastGuard
