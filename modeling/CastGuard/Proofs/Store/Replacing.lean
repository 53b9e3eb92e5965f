/-
# `CastGuard.Proofs.Store.Replacing` — what writing a script does to a disk

A script is replaced by writing beside it and moving the new file into its place.  On a sound disk
this either fails and changes nothing, or it gives the file its new text, leaves nothing beside it,
and touches nothing else (`write_run`).  The one thing that must not be is a link where the new file
is written to: the text would go through it.
-/
import CastGuard.Proofs.Disk.Sound
import CastGuard.Proofs.Run.Atomicity
import CastGuard.Store.Tree

namespace CastGuard

open Text

namespace Disk

/-! ## Sound disks stay sound -/

section Sound

variable {d : Disk} {dir : Place} {name : Raw} {mode : Mode}

theorem Sound.get?_below (hd : d.Sound) {p : Place} {e : Entry} (h : d.get? p = some e)
    (hp : p ≠ []) (hparent : (d.get? p.dropLast).all (fun f => f.kind ≠ .directory) = true) :
    False := by
  have hdir := hd.parent p e h hp
  cases hget : d.get? p.dropLast with
  | none => exact absurd hdir (by simp [hget])
  | some f => exact absurd hdir (by simpa [hget] using hparent)

theorem Sound.set (hd : d.Sound) (hdir : d.get? dir = some (.dir mode)) (hname : name.IsName)
    (hsize : name.size ≤ maxNameSize)
    (hleaf : (d.get? (dir ++ [name])).all (fun f => f.kind ≠ .directory) = true) (e : Entry) :
    (d.set (dir ++ [name]) e).Sound := by
  have hne : dir ++ [name] ≠ [] := by simp
  have hget : ∀ q f, (d.set (dir ++ [name]) e).get? q = some f →
      q = dir ++ [name] ∨ d.get? q = some f := by
    intro q f h
    rw [get?_set d hne] at h
    by_cases hq : q = dir ++ [name]
    · exact .inl hq
    · exact .inr (by rwa [if_neg hq] at h)
  have hnames : ∀ n ∈ dir ++ [name], n.IsName ∧ n.size ≤ maxNameSize := by
    intro n hn
    rcases List.mem_append.mp hn with hn | hn
    · exact ⟨hd.named _ _ hdir n hn, hd.short _ _ hdir n hn⟩
    · exact List.mem_singleton.mp hn ▸ ⟨hname, hsize⟩
  refine ⟨fun q f h n hn => ?_, fun q f h n hn => ?_, fun q f h hq => ?_⟩
  · rcases hget q f h with rfl | h
    · exact (hnames n hn).1
    · exact hd.named q f h n hn
  · rcases hget q f h with rfl | h
    · exact (hnames n hn).2
    · exact hd.short q f h n hn
  · rw [get?_set d hne]
    rcases hget q f h with rfl | h
    · have hother : (dir ++ [name]).dropLast ≠ dir ++ [name] := by simp
      rw [if_neg hother, List.dropLast_concat, hdir]
      rfl
    · have hother : q.dropLast ≠ dir ++ [name] := by
        intro heq
        exact hd.get?_below h hq (heq ▸ hleaf)
      rw [if_neg hother]
      exact hd.parent q f h hq

theorem Sound.erase (hd : d.Sound) {p : Place} (hp : p ≠ [])
    (hleaf : (d.get? p).all (fun f => f.kind ≠ .directory) = true) : (d.erase p).Sound := by
  have hget : ∀ q f, (d.erase p).get? q = some f → d.get? q = some f := by
    intro q f h
    rw [get?_erase d hp] at h
    split at h
    · exact absurd h (by simp)
    · exact h
  refine ⟨fun q f h => hd.named q f (hget q f h), fun q f h => hd.short q f (hget q f h),
    fun q f h hq => ?_⟩
  have hother : q.dropLast ≠ p := fun heq => hd.get?_below (hget q f h) hq (heq ▸ hleaf)
  rw [get?_erase d hp, if_neg hother]
  exact hd.parent q f (hget q f h) hq

end Sound

/-! ## The place beside a file -/

/-- Where the new text of a file is put before it takes the file's place. -/
def beside (p : Place) : Place :=
  p.dropLast ++ (p.getLast?.map fun name => Raw.text (Tree.staging name.display)).toList

@[simp] theorem beside_concat (dir : Place) (name : Raw) :
    beside (dir ++ [name]) = dir ++ [.text (Tree.staging name.display)] := by
  simp [beside]

theorem staging_pathOf (dir : Place) (name : Raw) :
    Tree.staging (pathOf (dir ++ [name])) = pathOf (beside (dir ++ [name])) := by
  rw [beside_concat, ← String.toList_inj, Tree.staging, String.toList_append,
    toList_pathOf (by simp), toList_pathOf (by simp)]
  simp [Raw.display, Tree.staging]

theorem length_staging (s : String) : (Tree.staging s).length = s.length + 12 := by
  rw [Tree.staging, String.length_append]
  rfl

theorem isName_staging {name : Raw} (h : name.IsName) :
    (Raw.text (Tree.staging name.display)).IsName := by
  have hlength : ∀ s : String, s.length < 12 → Raw.text (Tree.staging name.display) ≠ .text s := by
    intro s hs heq
    have hlen := length_staging name.display
    rw [Raw.text.inj heq] at hlen
    omega
  refine ⟨hlength _ (by decide), hlength _ (by decide), hlength _ (by decide), ?_, ?_⟩
  · simpa [Raw.display, Tree.staging] using h.noSlash
  · simpa [Raw.display, Tree.staging] using h.noNul

theorem staging_ne (s : String) : Tree.staging s ≠ s := by
  intro heq
  have hlen := length_staging s
  rw [heq] at hlen
  omega

theorem beside_ne {dir : Place} {name : Raw} : beside (dir ++ [name]) ≠ dir ++ [name] := by
  rw [beside_concat]
  intro heq
  cases name with
  | bytes bs => exact absurd heq (by simp)
  | text s => exact staging_ne s (by simpa [Raw.display] using heq)

theorem text_beside {dir : Place} {name : Raw} (h : ∀ n ∈ dir ++ [name], n.text?.isSome = true) :
    ∀ n ∈ beside (dir ++ [name]), n.text?.isSome = true := by
  intro n hn
  rw [beside_concat] at hn
  rcases List.mem_append.mp hn with hn | hn
  · exact h n (List.mem_append_left _ hn)
  · rw [List.mem_singleton.mp hn]
    rfl

/-! ## Replacing a file -/

/-- A file has got a new text, nothing is left beside it, and nothing else has changed. -/
structure Replaced (d d' : Disk) (p : Place) (text : String) : Prop where
  file : ∃ c mode, d.get? p = some (.file c mode) ∧ d'.get? p = some (.file (.text text) mode)
  stale : (d.get? (beside p)).all (fun f => f.kind = .other) = true
  clean : d'.get? (beside p) = none
  other : ∀ q, q ≠ p → q ≠ beside p → d'.get? q = d.get? q

theorem attempt_run (f : Disk → Except IoError Disk) (d : Disk) :
    (attempt f).run d = match f d with
      | .error e => (.error e, d)
      | .ok d' => (.ok (), d') := by
  simp only [attempt, StateT.run_bind, StateT.run_get, pure_bind]
  cases f d <;> rfl

section Replace

variable {d : Disk} {dir : Place} {name : Raw} {mode : Mode}

theorem target_pathOf (hd : d.Sound) (cwd : Place) {e : Entry}
    (hget : d.get? (dir ++ [name]) = some e) (he : e.kind ≠ .link)
    (htext : ∀ n ∈ dir ++ [name], n.text?.isSome = true) :
    d.target cwd (pathOf (dir ++ [name])) =
      if maxPathSize < (pathOf (dir ++ [name])).utf8ByteSize then .error .nameTooLong
      else .ok (dir ++ [name], e) := by
  obtain ⟨mode, hdir⟩ := hd.parent_dir hget
  have hlink : ∀ t, d.get? (dir ++ [name]) ≠ some (.link t) := by
    intro t heq
    obtain rfl := Option.some.inj (hget.symm.trans heq)
    exact he rfl
  have hsize : ¬ maxNameSize < name.size := Nat.not_lt.mpr (hd.short _ _ hget name (by simp))
  rw [target, spot_pathOf hd cwd .target hdir (hd.named _ _ hget name (by simp)) htext hlink, hget]
  by_cases hlong : maxPathSize < (pathOf (dir ++ [name])).utf8ByteSize
  · simp [hlong, Except.bind]
  · simp [hlong, hsize, Except.bind, Spot.occupant]

theorem write_pathOf (hd : d.Sound) (cwd : Place) (text : String)
    (hdir : d.get? dir = some (.dir mode)) (hname : name.IsName)
    (htext : ∀ n ∈ dir ++ [name], n.text?.isSome = true)
    (hlink : ∀ t, d.get? (dir ++ [name]) ≠ some (.link t)) :
    (∃ e, d.write cwd (pathOf (dir ++ [name])) text = .error e) ∨
      ∃ mode', d.write cwd (pathOf (dir ++ [name])) text =
          .ok (d.set (dir ++ [name]) (.file (.text text) mode')) ∧
        (pathOf (dir ++ [name])).utf8ByteSize ≤ maxPathSize ∧ name.size ≤ maxNameSize ∧
        (d.get? (dir ++ [name])).all (fun f => f.kind ≠ .directory) = true := by
  have hspot := spot_pathOf hd cwd .make hdir hname htext hlink
  by_cases hlong : maxPathSize < (pathOf (dir ++ [name])).utf8ByteSize ∨ maxNameSize < name.size
  · rw [if_pos hlong] at hspot
    exact .inl ⟨.nameTooLong, by simp [write, hspot]⟩
  · rw [if_neg hlong] at hspot
    have hfits : (pathOf (dir ++ [name])).utf8ByteSize ≤ maxPathSize ∧ name.size ≤ maxNameSize := by
      omega
    cases hget : d.get? (dir ++ [name]) with
    | none =>
      rw [hget] at hspot
      exact .inr ⟨newFileMode, by simp [write, hspot], hfits.1, hfits.2, by simp⟩
    | some e =>
      rw [hget] at hspot
      cases e with
      | file c mode =>
        exact .inr ⟨mode, by simp [write, hspot], hfits.1, hfits.2, by simp [Entry.kind]⟩
      | dir mode => exact .inl ⟨.isDirectory, by simp [write, hspot]⟩
      | link t => exact absurd hget (hlink t)

theorem spot_of_file (hd : d.Sound) (cwd : Place) (purpose : Purpose) {c : Raw}
    (hget : d.get? (dir ++ [name]) = some (.file c mode))
    (htext : ∀ n ∈ dir ++ [name], n.text?.isSome = true)
    (hfits : (pathOf (dir ++ [name])).utf8ByteSize ≤ maxPathSize) :
    d.spot cwd purpose (pathOf (dir ++ [name])) = .ok (.taken (dir ++ [name]) (.file c mode)) := by
  obtain ⟨dirMode, hdir⟩ := hd.parent_dir hget
  have hsize := hd.short _ _ hget name (by simp)
  rw [spot_pathOf hd cwd purpose hdir (hd.named _ _ hget name (by simp)) htext (by simp [hget]),
    hget,
    if_neg (by omega)]
  rfl

theorem setMode_of_file (hd : d.Sound) (cwd : Place) {c : Raw}
    (hget : d.get? (dir ++ [name]) = some (.file c mode))
    (htext : ∀ n ∈ dir ++ [name], n.text?.isSome = true)
    (hfits : (pathOf (dir ++ [name])).utf8ByteSize ≤ maxPathSize) (rights : Mode) :
    (attempt (·.setMode cwd (pathOf (dir ++ [name])) rights)).run d =
        (.ok (), d.set (dir ++ [name]) (.file c rights)) ∧
      (d.set (dir ++ [name]) (.file c rights)).Sound := by
  obtain ⟨dirMode, hdir⟩ := hd.parent_dir hget
  constructor
  · rw [attempt_run, setMode, target, spot_of_file hd cwd .target hget htext hfits]
    rfl
  · exact hd.set hdir (hd.named _ _ hget name (by simp)) (hd.short _ _ hget name (by simp))
      (by simp [hget, Entry.kind]) _

theorem place_run (hd : d.Sound) (cwd : Place) {c c' : Raw} {mode' : Mode} (rights : Mode)
    (hget : d.get? (dir ++ [name]) = some (.file c mode))
    (hbeside : d.get? (beside (dir ++ [name])) = some (.file c' mode'))
    (htext : ∀ n ∈ dir ++ [name], n.text?.isSome = true)
    (hfits : (pathOf (dir ++ [name])).utf8ByteSize ≤ maxPathSize)
    (hfits' : (pathOf (beside (dir ++ [name]))).utf8ByteSize ≤ maxPathSize) :
    ∃ d', (Tree.place (fileSystem cwd) (pathOf (dir ++ [name])) rights).run d = (.ok (), d') ∧
      d'.Sound ∧ ∀ q, d'.get? q =
        if q = dir ++ [name] then some (.file c' rights)
        else if q = beside (dir ++ [name]) then none else d.get? q := by
  have hne : beside (dir ++ [name]) ≠ dir ++ [name] := beside_ne
  have htext' := text_beside htext
  have hname := hd.named _ _ hget name (by simp)
  have hsize := hd.short _ _ hget name (by simp)
  obtain ⟨dirMode, hdir⟩ := hd.parent_dir hget
  rw [Tree.place, staging_pathOf]
  generalize hq : beside (dir ++ [name]) = q at *
  obtain ⟨name', rfl⟩ : ∃ name', q = dir ++ [name'] := ⟨_, by rw [← hq, beside_concat]⟩
  -- the staged file gets the rights
  obtain ⟨hset, hd₁⟩ := setMode_of_file hd cwd hbeside htext' hfits' rights
  have hget₁ := get?_set d (p := dir ++ [name']) (by simp) (e := .file c' rights)
  generalize d.set (dir ++ [name']) (.file c' rights) = d₁ at hset hget₁ hd₁
  -- and moves
  have hrename :
    (attempt (·.rename cwd (pathOf (dir ++ [name'])) (pathOf (dir ++ [name])))).run d₁ =
      (.ok (), (d₁.erase (dir ++ [name'])).set (dir ++ [name]) (.file c' rights)) := by
    have hthere : d₁.get? (dir ++ [name']) = some (.file c' rights) := by simp [hget₁]
    have hold : d₁.get? (dir ++ [name]) = some (.file c mode) := by
      rw [hget₁, if_neg hne.symm, hget]
    rw [attempt_run, rename, spot_of_file hd₁ cwd .entry hthere htext' hfits',
      spot_of_file hd₁ cwd .entry hold htext hfits]
    simp [hne]
  refine ⟨(d₁.erase (dir ++ [name'])).set (dir ++ [name]) (.file c' rights),
    (run_bind_of_run hset).trans hrename, ?_, fun x => ?_⟩
  · have hd₂ := hd₁.erase (p := dir ++ [name']) (by simp) (by simp [hget₁, Entry.kind])
    have hdir₂ : (d₁.erase (dir ++ [name'])).get? dir = some (.dir dirMode) := by
      rw [get?_erase d₁ (by simp), hget₁]
      simp [hdir]
    refine hd₂.set hdir₂ hname hsize ?_ _
    rw [get?_erase d₁ (by simp), hget₁, if_neg hne.symm, if_neg hne.symm, hget]
    simp [Entry.kind]
  · rw [get?_set _ (by simp), get?_erase _ (by simp), hget₁]
    by_cases hx : x = dir ++ [name']
    · simp [hx]
    · simp [hx]

theorem replace_stuck (cwd : Place) (target text : String)
    (h : ∀ rights d₁, d.mode cwd target = .ok rights →
      d.write cwd (Tree.staging target) text ≠ .ok d₁) :
    ∃ e, (Tree.replace (fileSystem cwd) target text).run d = (.error e, d) := by
  have hrights : ((fileSystem cwd).rights target).run d = (d.mode cwd target, d) := rfl
  rw [Tree.replace, run_bind_of_run hrights]
  cases hmode : d.mode cwd target with
  | error e => exact ⟨_, rfl⟩
  | ok rights =>
    have hstage : ((fileSystem cwd).write (Tree.staging target) text).run d = _ := attempt_run _ d
    cases hwrite : d.write cwd (Tree.staging target) text with
    | error e =>
      rw [hwrite] at hstage
      exact ⟨_, run_bind_of_run hstage⟩
    | ok d₁ => exact absurd hwrite (h rights d₁ hmode)

/-- A text that was staged is put into its place, or removed again. -/
theorem replace_staged (cwd : Place) {target text : String} {rights : Mode} {d₁ d₂ : Disk}
    {placed : Except IoError Unit} (hmode : d.mode cwd target = .ok rights)
    (hwrite : d.write cwd (Tree.staging target) text = .ok d₁)
    (hplace : (Tree.place (fileSystem cwd) target rights).run d₁ = (placed, d₂)) :
    (Tree.replace (fileSystem cwd) target text).run d =
      match placed with
      | .ok () => (.ok (), d₂)
      | .error e =>
        (.error (.io target e), (((fileSystem cwd).remove (Tree.staging target)).run d₂).2) := by
  have hrights : ((fileSystem cwd).rights target).run d = (d.mode cwd target, d) := rfl
  have hstage : ((fileSystem cwd).write (Tree.staging target) text).run d = _ := attempt_run _ d
  rw [hwrite] at hstage
  rw [Tree.replace, run_bind_of_run hrights, hmode]
  dsimp only
  rw [run_bind_of_run hstage]
  dsimp only
  rw [run_bind_of_run hplace]
  cases placed <;> rfl

theorem replace_run (hd : d.Sound) (cwd : Place) (text : String) {c : Raw}
    (hget : d.get? (dir ++ [name]) = some (.file c mode))
    (htext : ∀ n ∈ dir ++ [name], n.text?.isSome = true)
    (hlink : ∀ t, d.get? (beside (dir ++ [name])) ≠ some (.link t)) :
    (∃ e, (Tree.replace (fileSystem cwd) (pathOf (dir ++ [name])) text).run d = (.error e, d)) ∨
      ∃ d', (Tree.replace (fileSystem cwd) (pathOf (dir ++ [name])) text).run d = (.ok (), d') ∧
        d'.Sound ∧ d.Replaced d' (dir ++ [name]) text := by
  obtain ⟨dirMode, hdir⟩ := hd.parent_dir hget
  have hname := isName_staging (hd.named _ _ hget name (by simp))
  have hne : beside (dir ++ [name]) ≠ dir ++ [name] := beside_ne
  have htarget := target_pathOf hd cwd hget (by simp [Entry.kind]) htext
  by_cases hlong : maxPathSize < (pathOf (dir ++ [name])).utf8ByteSize
  · rw [if_pos hlong] at htarget
    refine .inl (replace_stuck cwd _ text fun rights d₁ hmode => absurd hmode ?_)
    simp [Disk.mode, htarget, Except.map]
  rw [if_neg hlong] at htarget
  have hmode : d.mode cwd (pathOf (dir ++ [name])) = .ok mode := by
    rw [Disk.mode, htarget]
    rfl
  rcases write_pathOf hd cwd text hdir hname (by simpa using text_beside htext)
    (by simpa using hlink)
    with ⟨e, hwrite⟩ | ⟨mode', hwrite, hfits, hsize, hleaf⟩
  · rw [← beside_concat, ← staging_pathOf] at hwrite
    exact .inl (replace_stuck cwd _ text fun rights d₁ _ => by simp [hwrite])
  · rw [← beside_concat] at hwrite hfits hleaf
    rw [← staging_pathOf] at hwrite
    have hget₁ := get?_set d (p := beside (dir ++ [name])) (by simp) (e := .file (.text text) mode')
    have hd₁ : (d.set (beside (dir ++ [name])) (.file (.text text) mode')).Sound := by
      rw [beside_concat] at hleaf ⊢
      exact hd.set hdir hname hsize hleaf _
    generalize d.set (beside (dir ++ [name])) (.file (.text text) mode') = d₁ at hwrite hget₁ hd₁
    have hold : d₁.get? (dir ++ [name]) = some (.file c mode) := by
      rw [hget₁, if_neg hne.symm, hget]
    obtain ⟨d', hplace, hd', hget'⟩ := place_run hd₁ cwd mode hold (by rw [hget₁, if_pos rfl]) htext
      (Nat.le_of_not_lt hlong) hfits
    have hstale : (d.get? (beside (dir ++ [name]))).all (fun f => f.kind = .other) = true := by
      cases hold : d.get? (beside (dir ++ [name])) with
      | none => rfl
      | some f =>
        cases f with
        | file c mode => rfl
        | dir mode => exact absurd (hold ▸ hleaf) (by simp [Entry.kind])
        | link t => exact absurd hold (hlink t)
    refine .inr ⟨d', replace_staged cwd hmode hwrite hplace, hd', ⟨c, mode, hget, by simp [hget']⟩,
      hstale, by rw [hget', if_neg hne, if_pos rfl], fun q hq hq' => ?_⟩
    rw [hget', if_neg hq, if_neg hq', hget₁, if_neg hq']

theorem write_eq_replace (cwd : Place) {root path : String} (text : String) {p : Place} {e : Entry}
    (hfollow : d.follow cwd .target (ScriptPath.join root path) = .ok (.taken p e)) :
    (∃ error, (Tree.write (fileSystem cwd) root path text).run d = (.error error, d)) ∨
      (∀ n ∈ p, n.text?.isSome = true) ∧
        d.canonical cwd (ScriptPath.join root path) = .ok (pathOf p) ∧
        (Tree.write (fileSystem cwd) root path text).run d =
          (Tree.replace (fileSystem cwd) (pathOf p) text).run d := by
  have hcanonical : ((fileSystem cwd).canonical (ScriptPath.join root path)).run d =
      (d.canonical cwd (ScriptPath.join root path), d) := rfl
  rw [Tree.write, run_bind_of_run hcanonical]
  rw [canonical, hfollow]
  by_cases htext : (p.all fun name => name.text?.isSome) = true
  · refine .inr ⟨List.all_eq_true.mp htext, ?_⟩
    simp [Except.bind, Spot.occupant, htext]
  · refine .inl ⟨.io (ScriptPath.join root path) (.unreadableTarget (pathOf p)), ?_⟩
    simp only [Except.bind, Spot.occupant, htext]
    rfl

theorem write_run (hd : d.Sound) (cwd : Place) {root path : String} (text : String) {p : Place}
    {c : Raw} (htarget : d.target cwd (ScriptPath.join root path) = .ok (p, .file c mode))
    (hlink : ∀ t, d.get? (beside p) ≠ some (.link t)) :
    (∃ e, (Tree.write (fileSystem cwd) root path text).run d = (.error e, d)) ∨
      ∃ d', (Tree.write (fileSystem cwd) root path text).run d = (.ok (), d') ∧
        d'.Sound ∧ d.Replaced d' p text := by
  obtain ⟨-, hfollow⟩ := target_eq_ok_iff.mp htarget
  have hget : d.get? p = some (.file c mode) := get?_of_target htarget
  rcases write_eq_replace cwd text hfollow with herror | ⟨htext, -, hwrite⟩
  · exact .inl herror
  · obtain rfl | ⟨dir, name, rfl⟩ := List.eq_nil_or_concat p
    · exact absurd hget (by simp [get?])
    · rw [List.concat_eq_append] at *
      rw [hwrite]
      exact replace_run hd cwd text hget htext hlink

end Replace

end Disk

end CastGuard
