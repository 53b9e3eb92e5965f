/-
# `CastGuard.Proofs.Store.Writing` — a write replaces its file or does nothing

Whatever a path leads to, a write to it ends in one of two ways (`write_whole_or_nothing`).  It
replaces the text of a file and nothing else, and the text is read back under the same path; or it
fails, and every place is as it was, but for the place where the text was staged, which may have
been cleared.

What must not be is a link at that place.  The text goes through it and ends up elsewhere, so do the
permission bits, and then the link itself is moved into the place of the file.  If it happens to
lead to that very file, it leads to itself from then on, and the text is lost
(`linked_staging_loses_text`).

For files the work is done in `CastGuard.Proofs.Store.Replacing`.  What is added here are
directories, the top among them: there the text is staged and cannot be moved, so it has to be
removed again.
-/
import CastGuard.Proofs.Disk.Below
import CastGuard.Proofs.Run.Preview

namespace CastGuard

open Text

namespace Disk

/-! ## Where paths lead -/

section Leads

variable {d d' : Disk} {dir p : Place} {links : Nat} {steps : List Step}

theorem Leads.kind_ne_link (hd : d.Sound) (hdir : d.HasDir dir) {e : Entry}
    (h : Leads d .target links dir steps p e) : e.kind ≠ .link := by
  induction h with
  | done =>
    obtain ⟨mode, hget⟩ := hdir
    simp [hget, Entry.kind]
  | stay _ ih => exact ih hdir
  | inside _ ih => exact ih hdir
  | up _ ih => exact ih (hd.hasDir_dropLast hdir)
  | down _ there _ ih => exact ih ⟨_, there⟩
  | file _ _ => simp [Entry.kind]
  | itself _ asked _ => exact absurd asked (by simp)
  | through _ _ _ _ ih =>
    refine ih ?_
    split
    · exact ⟨_, rfl⟩
    · exact hdir

theorem Leads.file_congr (touched : List Place) (hsame : ∀ q, q ∉ touched → d'.get? q = d.get? q)
    (hleaf : ∀ q ∈ touched, (d.get? q).all (fun f => f.kind = .other) = true) {c c' : Raw}
    {mode mode' : Mode} (h : Leads d .target links dir steps p (.file c mode))
    (hnew : d'.get? p = some (.file c' mode')) :
    Leads d' .target links dir steps p (.file c' mode') := by
  generalize hfile : Entry.file c mode = e at h
  induction h with
  | @done links dir =>
    have hhere : (d'.get? dir).getD (.dir newDirMode) = .file c' mode' := by rw [hnew]; rfl
    exact hhere ▸ .done
  | stay _ ih => exact .stay (ih hnew hfile)
  | inside _ ih => exact .inside (ih hnew hfile)
  | up _ ih => exact .up (ih hnew hfile)
  | down enters there _ ih =>
    exact .down enters (get?_of_untouched hsame hleaf there (by simp [Entry.kind])) (ih hnew hfile)
  | file enters _ => exact .file enters hnew
  | itself _ asked _ => exact absurd asked (by simp)
  | through enters there follow _ ih =>
    exact .through enters (get?_of_untouched hsame hleaf there (by simp [Entry.kind])) follow
      (ih hnew hfile)

end Leads

/-- A path that leads to a file is read, after the file was replaced, as the new text. -/
theorem read_of_replaced {d d' : Disk} {cwd p : Place} {path text : String} {c : Raw} {mode : Mode}
    (htarget : d.target cwd path = .ok (p, .file c mode)) (h : d.Replaced d' p text) :
    d'.read cwd path = .ok text := by
  obtain ⟨hsize, hfollow⟩ := target_eq_ok_iff.mp htarget
  obtain ⟨hpath, hne, hleads⟩ := follow_eq_taken_iff.mp hfollow
  obtain ⟨c₀, mode₀, hold, hnew⟩ := h.file
  have hleads' := hleads.file_congr [p, beside p]
    (fun q hq => h.other q (by simp_all) (by simp_all))
    (fun q hq => by
      rcases List.mem_cons.mp hq with rfl | hq
      · simp [hold, Entry.kind]
      · rw [List.mem_singleton.mp hq]
        exact h.stale) hnew
  refine (read_eq_ok_iff cwd).mpr ⟨p, mode₀, target_eq_ok_iff.mpr ⟨hsize, ?_⟩⟩
  exact follow_eq_taken_iff.mpr ⟨hpath, hne, hleads'⟩

theorem Replaced.link_iff {d d' : Disk} {p : Place} {text : String}
    (h : d.Replaced d' p text) (q : Place)
    (t : Raw) : d'.get? q = some (.link t) ↔ d.get? q = some (.link t) := by
  obtain ⟨c, mode, hold, hnew⟩ := h.file
  by_cases hp : q = p
  · simp [hp, hold, hnew]
  by_cases hbeside : q = beside p
  · have hlink : d.get? (beside p) ≠ some (.link t) := fun hget => by
      simpa [hget, Entry.kind] using h.stale
    simp [hbeside, h.clean, hlink]
  · rw [h.other q hp hbeside]

/-! ## Where a text is staged -/

/-- Where the text for a place is staged: beside it, and for the top below it. -/
def stagedAt (p : Place) : Place := if p = [] then [.text (Tree.staging "")] else beside p

theorem staging_eq_pathOf (p : Place) : Tree.staging (pathOf p) = pathOf (stagedAt p) := by
  obtain rfl | ⟨dir, name, rfl⟩ := List.eq_nil_or_concat p
  · decide
  · rw [List.concat_eq_append, staging_pathOf, stagedAt, if_neg (by simp)]

theorem stagedAt_ne (p : Place) : stagedAt p ≠ p := by
  obtain rfl | ⟨dir, name, rfl⟩ := List.eq_nil_or_concat p
  · simp [stagedAt]
  · rw [List.concat_eq_append, stagedAt, if_neg (by simp)]
    exact beside_ne

theorem exists_stagedAt {d : Disk} (hd : d.Sound) {p : Place} {e : Entry} (hget : d.get? p = some e)
    (htext : ∀ n ∈ p, n.text?.isSome = true) :
    ∃ base name mode, stagedAt p = base ++ [name] ∧ d.get? base = some (.dir mode) ∧ name.IsName ∧
      ∀ n ∈ base ++ [name], n.text?.isSome = true := by
  obtain rfl | ⟨dir, name, rfl⟩ := List.eq_nil_or_concat p
  · refine ⟨[], .text (Tree.staging ""), newDirMode, by simp [stagedAt], rfl, by decide, ?_⟩
    intro n hn
    rw [List.mem_singleton.mp hn]
    rfl
  · rw [List.concat_eq_append] at *
    obtain ⟨mode, hdir⟩ := hd.parent_dir hget
    refine ⟨dir, .text (Tree.staging name.display), mode, ?_, hdir,
      isName_staging (hd.named _ _ hget name (by simp)), ?_⟩
    · rw [stagedAt, if_neg (by simp), beside_concat]
    · simpa using text_beside htext

/-! ## Directories -/

section Directories

variable {d : Disk} {p : Place} {mode : Mode}

theorem spot_dir (hd : d.Sound) (cwd : Place) (hget : d.get? p = some (.dir mode))
    (htext : ∀ n ∈ p, n.text?.isSome = true) :
    (∃ e, d.spot cwd .entry (pathOf p) = .error e) ∨
      d.spot cwd .entry (pathOf p) = .ok (.taken p (.dir mode)) := by
  obtain rfl | ⟨dir, name, rfl⟩ := List.eq_nil_or_concat p
  · obtain rfl : newDirMode = mode := by simpa [get?] using hget
    have hroute : Route.ofPath (.text "/") = ⟨true, [.inside]⟩ := by decide
    have hpath : isPath "/" = true := by decide
    have hsize : ¬ maxPathSize < "/".utf8ByteSize := by decide
    refine .inr ?_
    rw [show pathOf [] = "/" from rfl, spot, if_neg (fun h => hsize h.2), follow]
    simp [hpath, hroute, resolve_inside, resolve_nil, get?]
  · rw [List.concat_eq_append] at *
    obtain ⟨dirMode, hdir⟩ := hd.parent_dir hget
    rw [spot_pathOf hd cwd .entry hdir (hd.named _ _ hget name (by simp)) htext (by simp [hget]),
      hget]
    split
    · exact .inl ⟨_, rfl⟩
    · exact .inr rfl

theorem rename_dir (hd : d.Sound) (cwd : Place) (hget : d.get? p = some (.dir mode))
    (htext : ∀ n ∈ p, n.text?.isSome = true) (source : String) :
    ∃ e, d.rename cwd source (pathOf p) = .error e := by
  unfold rename
  cases d.spot cwd .entry source with
  | error e => exact ⟨e, rfl⟩
  | ok spot =>
    rcases spot_dir hd cwd hget htext with ⟨e, hspot⟩ | hspot
    · rw [hspot]
      rcases spot with ⟨q, f | f | f⟩ | q <;> exact ⟨_, rfl⟩
    · rw [hspot]
      rcases spot with ⟨q, f | f | f⟩ | q <;> exact ⟨_, rfl⟩

theorem place_dir (hd : d.Sound) (cwd : Place) (hget : d.get? p = some (.dir mode))
    (htext : ∀ n ∈ p, n.text?.isSome = true) {base : Place} {name c : Raw} {mode' : Mode}
    (hstaged : stagedAt p = base ++ [name]) (hget' : d.get? (base ++ [name]) = some (.file c mode'))
    (htext' : ∀ n ∈ base ++ [name], n.text?.isSome = true)
    (hfits : (pathOf (base ++ [name])).utf8ByteSize ≤ maxPathSize) (rights : Mode) :
    (d.set (base ++ [name]) (.file c rights)).Sound ∧
    ∃ e, (Tree.place (fileSystem cwd) (pathOf p) rights).run d =
      (.error e, d.set (base ++ [name]) (.file c rights)) := by
  obtain ⟨hset, hd₁⟩ := setMode_of_file hd cwd hget' htext' hfits rights
  refine ⟨hd₁, ?_⟩
  have hdir : (d.set (base ++ [name]) (.file c rights)).get? p = some (.dir mode) := by
    rw [get?_set d (by simp), if_neg (hstaged ▸ (stagedAt_ne p).symm), hget]
  obtain ⟨e, herror⟩ := rename_dir hd₁ cwd hdir htext (pathOf (base ++ [name]))
  have hrename : (attempt (·.rename cwd (pathOf (base ++ [name])) (pathOf p))).run
      (d.set (base ++ [name]) (.file c rights)) =
        (.error e, d.set (base ++ [name]) (.file c rights)) := by
    rw [attempt_run, herror]
  rw [Tree.place, staging_eq_pathOf, hstaged]
  exact ⟨e, (run_bind_of_run hset).trans hrename⟩

/-- Every place is as it was, but for one that may have been cleared. -/
def Cleared (d d' : Disk) (q : Place) : Prop :=
  ∀ x, d'.get? x = d.get? x ∨ d'.get? x = none ∧ x = q

theorem Cleared.refl (d : Disk) (q : Place) : d.Cleared d q := fun _ => .inl rfl

theorem replace_dir (hd : d.Sound) (cwd : Place) (text : String)
    (hget : d.get? p = some (.dir mode))
    (htext : ∀ n ∈ p, n.text?.isSome = true) (hlink : ∀ t, d.get? (stagedAt p) ≠ some (.link t)) :
    ∃ e d', (Tree.replace (fileSystem cwd) (pathOf p) text).run d = (.error e, d') ∧
      d.Cleared d' (stagedAt p) := by
  obtain ⟨base, name, baseMode, hstaged, hbase, hname, htext'⟩ := exists_stagedAt hd hget htext
  have hstaging : Tree.staging (pathOf p) = pathOf (base ++ [name]) := by
    rw [staging_eq_pathOf, hstaged]
  rw [hstaged] at hlink ⊢
  cases hmode : d.mode cwd (pathOf p) with
  | error e =>
    obtain ⟨error, herror⟩ := replace_stuck cwd (pathOf p) text
      fun rights d₁ hok => absurd (hmode.symm.trans hok) (by simp)
    exact ⟨error, d, herror, .refl d _⟩
  | ok rights =>
    rcases write_pathOf hd cwd text hbase hname htext' hlink with
      ⟨e, hwrite⟩ | ⟨mode', hwrite, hfits, hsize, hleaf⟩
    · rw [← hstaging] at hwrite
      obtain ⟨error, herror⟩ := replace_stuck (d := d) cwd (pathOf p) text
        fun rights d₁ _ => by simp [hwrite]
      exact ⟨error, d, herror, .refl d _⟩
    · rw [← hstaging] at hwrite
      -- the text is staged, `place` fails on the way, and `remove` takes the staged file away again
      have hget₁ := get?_set d (p := base ++ [name]) (by simp) (e := .file (.text text) mode')
      have hd₁ := hd.set hbase hname hsize hleaf (.file (.text text) mode')
      generalize d.set (base ++ [name]) (.file (.text text) mode') = d₁ at hwrite hget₁ hd₁
      have hdir : d₁.get? p = some (.dir mode) := by
        rw [hget₁, if_neg (hstaged ▸ (stagedAt_ne p).symm), hget]
      obtain ⟨hd₂, e, hplace⟩ := place_dir hd₁ cwd hdir htext hstaged (by rw [hget₁, if_pos rfl])
        htext' hfits rights
      have hget₂ := get?_set d₁ (p := base ++ [name]) (by simp) (e := .file (.text text) rights)
      generalize d₁.set (base ++ [name]) (.file (.text text) rights) = d₂ at hd₂ hplace hget₂
      have hremove : ((fileSystem cwd).remove (pathOf (base ++ [name]))).run d₂ =
          (.ok (), d₂.erase (base ++ [name])) := by
        change (attempt (·.remove cwd (pathOf (base ++ [name])))).run d₂ = _
        rw [attempt_run, remove,
          spot_of_file hd₂ cwd .entry (by rw [hget₂, if_pos rfl]) htext' hfits]
      have hrun := replace_staged cwd hmode hwrite hplace
      rw [hstaging, hremove] at hrun
      refine ⟨.io (pathOf p) e, d₂.erase (base ++ [name]), hrun, fun x => ?_⟩
      rw [get?_erase d₂ (by simp), hget₂, hget₁]
      by_cases hx : x = base ++ [name]
      · exact .inr ⟨by rw [if_pos hx], hx⟩
      · exact .inl (by simp only [if_neg hx])

end Directories

/-! ## Whole writes -/

/-- Where the text for a path is staged, there is no link that the text can be written through. -/
def Unlinked (d : Disk) (cwd : Place) (path text : String) : Prop :=
  ∀ p e, d.follow cwd .target path = .ok (.taken p e) → ∀ t, d.get? (stagedAt p) = some (.link t) →
    ∀ d₁, d.write cwd (Tree.staging (pathOf p)) text ≠ .ok d₁

section Writes

variable {d : Disk} (hd : d.Sound) {cwd : Place} (hcwd : d.HasDir cwd)

theorem write_nowhere (cwd : Place) (root path text : String)
    (h : ∀ p e, d.follow cwd .target (ScriptPath.join root path) ≠ .ok (.taken p e)) :
    ∃ error, (Tree.write (fileSystem cwd) root path text).run d = (.error error, d) := by
  have hcanonical : ((fileSystem cwd).canonical (ScriptPath.join root path)).run d =
      (d.canonical cwd (ScriptPath.join root path), d) := rfl
  rw [Tree.write, run_bind_of_run hcanonical, canonical]
  cases hfollow : d.follow cwd .target (ScriptPath.join root path) with
  | error e => exact ⟨_, rfl⟩
  | ok spot =>
    cases spot with
    | free p => exact ⟨_, rfl⟩
    | taken p e => exact absurd hfollow (h p e)

include hd hcwd

/-- How a write ends: it fails and may clear the place where the text was staged, or it replaces the
file that its path leads to. -/
theorem write_cases (root path text : String)
    (hlink : d.Unlinked cwd (ScriptPath.join root path) text) :
    (∃ error d', (Tree.write (fileSystem cwd) root path text).run d = (.error error, d') ∧
      ∀ q, d'.get? q = d.get? q ∨ d'.get? q = none ∧
        ∃ p, d.canonical cwd (ScriptPath.join root path) = .ok (pathOf p) ∧ q = stagedAt p) ∨
    ∃ p c mode d', (Tree.write (fileSystem cwd) root path text).run d = (.ok (), d') ∧
      d.follow cwd .target (ScriptPath.join root path) = .ok (.taken p (.file c mode)) ∧
      d.canonical cwd (ScriptPath.join root path) = .ok (pathOf p) ∧ d.Replaced d' p text := by
  by_cases hthere : ∃ p e, d.follow cwd .target (ScriptPath.join root path) = .ok (.taken p e)
  · obtain ⟨p, e, hfollow⟩ := hthere
    rcases write_eq_replace cwd text hfollow with ⟨error, herror⟩ | ⟨htext, hcanonical, hwrite⟩
    · exact .inl ⟨error, d, herror, fun q => .inl rfl⟩
    rw [hwrite]
    by_cases hstuck : ∀ d₁, d.write cwd (Tree.staging (pathOf p)) text ≠ .ok d₁
    · obtain ⟨error, herror⟩ := replace_stuck cwd (pathOf p) text fun _ d₁ _ => hstuck d₁
      exact .inl ⟨error, d, herror, fun q => .inl rfl⟩
    have hfree : ∀ t, d.get? (stagedAt p) ≠ some (.link t) :=
      fun t ht => hstuck (hlink p e hfollow t ht)
    have hleads := (follow_eq_taken_iff.mp hfollow).2.2
    have hstart : d.HasDir
        (if (Route.ofPath (.text (ScriptPath.join root path))).fromTop then [] else cwd) := by
      split
      · exact ⟨_, rfl⟩
      · exact hcwd
    cases e with
    | file c mode =>
      obtain rfl | ⟨dir, name, rfl⟩ := List.eq_nil_or_concat p
      · exact absurd hleads.get?_of_file (by simp [get?])
      · rw [List.concat_eq_append] at *
        rw [stagedAt, if_neg (by simp)] at hfree
        rcases replace_run hd cwd text hleads.get?_of_file htext hfree with
          ⟨error, herror⟩ | ⟨d', hok, -, h⟩
        · exact .inl ⟨error, d, herror, fun q => .inl rfl⟩
        · exact .inr ⟨dir ++ [name], c, mode, d', hok, hfollow, hcanonical, h⟩
    | dir mode =>
      obtain ⟨error, d', herror, hcleared⟩ :=
        replace_dir hd cwd text (hleads.hasDir hd hstart) htext hfree
      refine .inl ⟨error, d', herror, fun q => ?_⟩
      rcases hcleared q with hsame | ⟨hnone, hq⟩
      · exact .inl hsame
      · exact .inr ⟨hnone, p, hcanonical, hq⟩
    | link t => exact absurd rfl (hleads.kind_ne_link hd hstart)
  · obtain ⟨error, herror⟩ := write_nowhere cwd root path text
      fun p e hfollow => hthere ⟨p, e, hfollow⟩
    exact .inl ⟨error, d, herror, fun q => .inl rfl⟩

/-- A write gives the file that its path leads to the new text, and the text is read back; or it
fails, and every place is as it was, but for the one where the text was staged, which may be empty
now. -/
theorem write_whole_or_nothing (root path text : String)
    (hlink : d.Unlinked cwd (ScriptPath.join root path) text) :
    (∃ p d', ((Tree.store (fileSystem cwd) root).write path text).run d = (.ok (), d') ∧
      d.canonical cwd (ScriptPath.join root path) = .ok (pathOf p) ∧ d.Replaced d' p text ∧
      (∀ q t, d'.get? q = some (.link t) ↔ d.get? q = some (.link t)) ∧
      ((ScriptPath.join root path).utf8ByteSize ≤ maxPathSize →
        ((Tree.store (fileSystem cwd) root).read path).run d' = (.ok text, d'))) ∨
    ∃ error d', ((Tree.store (fileSystem cwd) root).write path text).run d = (.error error, d') ∧
      ∀ q, d'.get? q = d.get? q ∨ d'.get? q = none ∧
        ∃ p, d.canonical cwd (ScriptPath.join root path) = .ok (pathOf p) ∧ q = stagedAt p := by
  rcases write_cases hd hcwd root path text hlink with
    ⟨error, d', hrun, hcleared⟩ | ⟨p, c, mode, d', hrun, hfollow, hcanonical, h⟩
  · exact .inr ⟨.known error, d', run_bind_of_run hrun, hcleared⟩
  · refine .inl ⟨p, d', run_bind_of_run hrun, hcanonical, h, h.link_iff, fun hfits => ?_⟩
    have htarget : d.target cwd (ScriptPath.join root path) = .ok (p, .file c mode) :=
      target_eq_ok_iff.mpr ⟨fun _ => hfits, hfollow⟩
    rw [read_run, read_of_replaced htarget h, mapError_ok, mapError_ok]

end Writes

/-- A script behind a link, with a file where its text will be staged. -/
def behindLink : Disk :=
  ⟨[([.text "w"], .dir 0o755), ([.text "w", .text "core"], .dir 0o755),
    ([.text "w", .text "core", .text "a.gd"], .link (.text "../lib/a.gd")),
    ([.text "w", .text "lib"], .dir 0o755),
    ([.text "w", .text "lib", .text "a.gd"], .file (.text "old") 0o640),
    ([.text "w", .text "lib", .text "a.gd.castfix.tmp"], .file (.text "left over") 0o600)]⟩

theorem write_whole_or_nothing_behind_link :
    ∃ d', ((Tree.store (fileSystem [.text "w"]) ".").write "core/a.gd" "new").run behindLink =
        (.ok (), d') ∧
      d'.get? [.text "w", .text "core", .text "a.gd"] = some (.link (.text "../lib/a.gd")) ∧
      d'.get? [.text "w", .text "lib", .text "a.gd"] = some (.file (.text "new") 0o640) ∧
      d'.get? [.text "w", .text "lib", .text "a.gd.castfix.tmp"] = none ∧
      ((Tree.store (fileSystem [.text "w"]) ".").read "core/a.gd").run d' = (.ok "new", d') := by
  have hlink : behindLink.Unlinked [.text "w"] (ScriptPath.join "." "core/a.gd") "new" := by
    intro p e hfollow t hget
    have hplace :
      (behindLink.follow [.text "w"] .target (ScriptPath.join "." "core/a.gd")).toOption =
        some (.taken [.text "w", .text "lib", .text "a.gd"] (.file (.text "old") 0o640)) := by
      decide +kernel
    rw [hfollow] at hplace
    obtain ⟨rfl, -⟩ := Spot.taken.inj (Option.some.inj hplace)
    have hfile : behindLink.get? (stagedAt [.text "w", .text "lib", .text "a.gd"]) =
        some (.file (.text "left over") 0o600) := by decide +kernel
    exact absurd (hfile.symm.trans hget) (by simp)
  have hd : behindLink.Sound := .of_entries (by decide +kernel) (by decide +kernel)
  rcases write_whole_or_nothing hd ⟨0o755, by decide +kernel⟩ "." "core/a.gd" "new" hlink with
    ⟨p, d', hrun, -, -, hlinks, hread⟩ | ⟨error, d', hrun, -⟩
  · obtain rfl : _ = d' := congrArg Prod.snd hrun
    exact ⟨_, hrun, (hlinks _ _).mpr (by decide +kernel), by decide +kernel, by decide +kernel,
      hread (by decide +kernel)⟩
  · have hok : (((Tree.store (fileSystem [.text "w"]) ".").write "core/a.gd" "new").run
        behindLink).1.toOption = some () := by decide +kernel
    rw [hrun] at hok
    exact absurd hok (by simp [Except.toOption])

/-- A script with a link to it where its text will be staged. -/
def stagedThroughLink : Disk :=
  ⟨[([.text "w"], .dir 0o755), ([.text "w", .text "core"], .dir 0o755),
    ([.text "w", .text "core", .text "a.gd"], .file (.text "old\n") 0o644),
    ([.text "w", .text "core", .text "a.gd.castfix.tmp"], .link (.text "a.gd"))]⟩

/-- The text goes through the link into the script, and then the link takes the place of the script:
it leads to itself, and the text is gone. -/
theorem linked_staging_loses_text :
    stagedThroughLink.Sound ∧
    (((Tree.store (fileSystem [.text "w"]) ".").write "core/a.gd" "new\n").run
      stagedThroughLink).1.toOption = some () ∧
    (((Tree.store (fileSystem [.text "w"]) ".").write "core/a.gd" "new\n").run
      stagedThroughLink).2.get? [.text "w", .text "core", .text "a.gd"] =
        some (.link (.text "a.gd")) ∧
    (((Tree.store (fileSystem [.text "w"]) ".").read "core/a.gd").run
      (((Tree.store (fileSystem [.text "w"]) ".").write "core/a.gd" "new\n").run
        stagedThroughLink).2).1.toOption = none :=
  ⟨.of_entries (by decide +kernel) (by decide +kernel), by decide +kernel, by decide +kernel,
    by decide +kernel⟩

end Disk

end CastGuard
