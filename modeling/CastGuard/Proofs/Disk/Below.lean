/-
# `CastGuard.Proofs.Disk.Below` — paths behind a directory

A path that is joined to a directory takes the directory's steps and then its own (`ofPath_join`),
and steps in a row lead where the later ones lead from the place that the earlier ones lead to
(`Leads.split`, `Leads.append`).  From a place without links at or below it, steps that never go up
stay below it (`Leads.isPrefix`).
-/
import CastGuard.Proofs.Disk.Sound
import CastGuard.Proofs.ScriptPath.Spelling

namespace CastGuard

open Text

/-! ## Joined paths -/

namespace ScriptPath

theorem exists_toList_join {dir : String} (hdir : dir ≠ "") :
    ∃ front : List Char, ∀ path, isAbsolute path = false →
      (join dir path).toList = front ++ '/' :: path.toList := by
  by_cases hlast : dir.toList.getLast? = some '/'
  · obtain ⟨front, hfront⟩ := List.getLast?_eq_some_iff.mp hlast
    refine ⟨front, fun path hpath => ?_⟩
    simp [join, hpath, hdir, hfront]
  · refine ⟨dir.toList, fun path hpath => ?_⟩
    simp [join, hpath, hdir, hlast]

theorem head_parts_ne_nil {path : String} (hpath : isAbsolute path = false) (hne : path ≠ "")
    {first : List Char} {rest : List (List Char)} (h : parts '/' path.toList = first :: rest) :
    first ≠ [] := by
  rintro rfl
  cases hcs : path.toList with
  | nil => exact hne (String.toList_eq_nil_iff.mp hcs)
  | cons c cs =>
    by_cases hc : c = '/'
    · exact absurd hpath (by simp [isAbsolute, hcs, hc])
    · rw [hcs, parts, if_neg hc] at h
      split at h <;> exact absurd h (by simp)

end ScriptPath

theorem Text.Raw.IsName.isPart {name : String} (h : (Raw.text name).IsName) :
    Component.IsPart name.toList where
  notEmpty heq := h.notEmpty (by rw [String.toList_eq_nil_iff.mp heq])
  notHere heq := h.notHere (by rw [← String.ofList_toList (s := name), heq])
  notUp heq := h.notUp (by rw [← String.ofList_toList (s := name), heq])
  noSlash := h.noSlash

namespace Disk

open ScriptPath

def stepsOf (ps : List (List Char)) : List Step :=
  ((ps.map fun p => Raw.text (String.ofList p)).filter (· ≠ .text "")).map Step.ofName

theorem stepsOf_append (ps qs : List (List Char)) :
    stepsOf (ps ++ qs) = stepsOf ps ++ stepsOf qs := by
  simp [stepsOf]

theorem ofPath_text (path : String) :
    Route.ofPath (.text path) =
      ⟨(parts '/' path.toList).length > 1 ∧ (parts '/' path.toList).head? = some [],
        stepsOf (parts '/' path.toList) ++
          if (parts '/' path.toList).length > 1 ∧ (parts '/' path.toList).getLast? = some [] then
            [.inside]
          else []⟩ := by
  have htext : ∀ part : Option (List Char),
      part.map (fun p => Raw.text (String.ofList p)) = some (.text "") ↔ part = some [] := by
    intro part
    cases part with
    | none => simp
    | some p => simp [← String.toList_inj]
  simp only [Route.ofPath, namesOf, stepsOf, List.length_map, List.head?_map,
    List.getLast?_map, htext]
  split <;> simp

/-- A path behind a directory takes the directory's steps first. -/
theorem ofPath_join (dir : String) : ∃ (fromTop : Bool) (steps : List Step), ∀ path,
    isAbsolute path = false → path ≠ "" →
      Route.ofPath (.text (join dir path)) =
        ⟨fromTop, steps ++ (Route.ofPath (.text path)).steps⟩ := by
  by_cases hdir : dir = ""
  · refine ⟨false, [], fun path hpath hne => ?_⟩
    obtain ⟨first, rest, hparts⟩ := List.exists_cons_of_ne_nil (parts_ne_nil '/' path.toList)
    have hjoin : join dir path = path := by simp [join, hdir]
    rw [hjoin, ofPath_text, hparts]
    simp [head_parts_ne_nil hpath hne hparts]
  · obtain ⟨front, hfront⟩ := exists_toList_join hdir
    obtain ⟨start, more, hstart⟩ := List.exists_cons_of_ne_nil (parts_ne_nil '/' front)
    refine ⟨start = [], stepsOf (parts '/' front), fun path hpath hne => ?_⟩
    obtain ⟨first, rest, hparts⟩ := List.exists_cons_of_ne_nil (parts_ne_nil '/' path.toList)
    have hfirst := head_parts_ne_nil hpath hne hparts
    have hlength : 1 < (start :: more ++ first :: rest).length := by
      simp only [List.length_append, List.length_cons]
      omega
    have hlast : (start :: more ++ first :: rest).getLast? = (first :: rest).getLast? := by
      rw [List.getLast?_append, List.getLast?_cons]
      rfl
    rw [ofPath_text, ofPath_text, hfront path hpath, parts_append, stepsOf_append, hstart, hparts,
      hlast, List.append_assoc]
    -- a slash at the end stands behind the same part
    have hslash : (1 < (first :: rest).length ∧ (first :: rest).getLast? = some []) ↔
        (first :: rest).getLast? = some [] := by
      cases rest with
      | nil => simp [hfirst]
      | cons p rest => simp
    have hhead : (start :: more ++ first :: rest).head? = some [] ↔ start = [] := by simp
    simp only [gt_iff_lt, hlength, hslash, hhead, true_and]

theorem steps_ne_nil {path : String} (hpath : isAbsolute path = false) (hne : path ≠ "") :
    (Route.ofPath (.text path)).steps ≠ [] := by
  obtain ⟨first, rest, hparts⟩ := List.exists_cons_of_ne_nil (parts_ne_nil '/' path.toList)
  have hfirst := head_parts_ne_nil hpath hne hparts
  rw [ofPath_text, hparts]
  simp [stepsOf, hfirst, ← String.toList_inj]

theorem up_mem_components {path : String} (h : .up ∈ (Route.ofPath (.text path)).steps) :
    .up ∈ components path := by
  obtain ⟨first, rest, hparts⟩ := List.exists_cons_of_ne_nil (parts_ne_nil '/' path.toList)
  have hdots : ['.', '.'] ∈ first :: rest := by
    rw [ofPath_text, hparts] at h
    have hsteps : .up ∈ stepsOf (first :: rest) := by
      rcases List.mem_append.mp h with h | h
      · exact h
      · split at h <;> exact absurd h (by simp)
    obtain ⟨name, hname, hup⟩ := List.mem_map.mp hsteps
    obtain ⟨part, hpart, rfl⟩ := List.mem_map.mp (List.mem_filter.mp hname).1
    have hpart' : part = ['.', '.'] := by
      unfold Step.ofName at hup
      split at hup
      · exact absurd hup (by simp)
      · split at hup
        · next heq => simpa [← String.toList_inj] using heq
        · exact absurd hup (by simp)
    exact hpart' ▸ hpart
  rw [components_of_parts hparts]
  rcases List.mem_cons.mp hdots with rfl | hmem
  · rw [isAbsolute_of_parts hparts (by simp)]
    exact List.mem_append_left _ (by decide)
  · exact List.mem_append_right _ (List.mem_filterMap.mpr ⟨_, hmem, by decide⟩)

/-! ## Steps in a row -/

section Steps

variable {d : Disk} {dir : Place}

theorem Leads.unique {purpose : Purpose} {links : Nat} {steps : List Step} {p q : Place}
    {e f : Entry} (h : Leads d purpose links dir steps p e)
    (h' : Leads d purpose links dir steps q f) :
    p = q ∧ e = f := by
  have heq := (resolve_of_leads h).symm.trans (resolve_of_leads h')
  simpa using heq

def HasDir (d : Disk) (p : Place) : Prop := ∃ mode, d.get? p = some (.dir mode)

theorem Sound.hasDir_dropLast (hd : d.Sound) {p : Place} (h : d.HasDir p) :
    d.HasDir p.dropLast := by
  obtain rfl | ⟨front, name, rfl⟩ := List.eq_nil_or_concat p
  · exact h
  · obtain ⟨mode, hget⟩ := h
    rw [List.concat_eq_append] at *
    rw [List.dropLast_concat]
    exact hd.parent_dir hget

theorem Sound.hasDir_of_append (hd : d.Sound) {p q : Place} {e : Entry}
    (h : d.get? (p ++ q) = some e)
    (hq : q ≠ []) : d.HasDir p := by
  obtain rfl | ⟨front, name, rfl⟩ := List.eq_nil_or_concat q
  · exact absurd rfl hq
  · rw [List.concat_eq_append, ← List.append_assoc] at h
    obtain ⟨mode, hget⟩ := hd.parent_dir h
    exact hd.dir_of_append hget

/-- What leads somewhere leads first to where its first steps lead, which is a directory. -/
theorem Leads.split {purpose : Purpose} {links : Nat} {steps rest : List Step}
    {p : Place} {e : Entry}
    (h : Leads d purpose links dir (steps ++ rest) p e) (hrest : rest ≠ []) :
    ∃ mid f left, Leads d .target links dir steps mid f ∧ Leads d purpose left mid rest p e ∧
      (d.Sound → d.HasDir dir → d.HasDir mid) := by
  have henters : ∀ {name : Raw} {more : List Step}, Enters purpose name (more ++ rest) →
      Enters .target name more := fun h => ⟨h.1, by simp⟩
  generalize hall : steps ++ rest = all at h
  -- without first steps nothing has happened yet; otherwise the first step is the first of both
  induction h generalizing steps with
  | done => exact absurd (List.append_eq_nil_iff.mp hall).2 hrest
  | stay next ih =>
    rcases List.append_eq_cons_iff.mp hall with ⟨rfl, rfl⟩ | ⟨steps, rfl, rfl⟩
    · exact ⟨_, _, _, .done, .stay next, fun _ hdir => hdir⟩
    · obtain ⟨mid, f, left, hfirst, hlast, hmid⟩ := ih rfl
      exact ⟨mid, f, left, .stay hfirst, hlast, hmid⟩
  | inside next ih =>
    rcases List.append_eq_cons_iff.mp hall with ⟨rfl, rfl⟩ | ⟨steps, rfl, rfl⟩
    · exact ⟨_, _, _, .done, .inside next, fun _ hdir => hdir⟩
    · obtain ⟨mid, f, left, hfirst, hlast, hmid⟩ := ih rfl
      exact ⟨mid, f, left, .inside hfirst, hlast, hmid⟩
  | up next ih =>
    rcases List.append_eq_cons_iff.mp hall with ⟨rfl, rfl⟩ | ⟨steps, rfl, rfl⟩
    · exact ⟨_, _, _, .done, .up next, fun _ hdir => hdir⟩
    · obtain ⟨mid, f, left, hfirst, hlast, hmid⟩ := ih rfl
      exact ⟨mid, f, left, .up hfirst, hlast, fun hd hdir => hmid hd (hd.hasDir_dropLast hdir)⟩
  | down enters there next ih =>
    rcases List.append_eq_cons_iff.mp hall with ⟨rfl, rfl⟩ | ⟨steps, rfl, rfl⟩
    · exact ⟨_, _, _, .done, .down enters there next, fun _ hdir => hdir⟩
    · obtain ⟨mid, f, left, hfirst, hlast, hmid⟩ := ih rfl
      exact ⟨mid, f, left, .down (henters enters) there hfirst, hlast,
        fun hd _ => hmid hd ⟨_, there⟩⟩
  | file enters there =>
    rcases List.append_eq_cons_iff.mp hall with ⟨rfl, rfl⟩ | ⟨steps, rfl, hnil⟩
    · exact ⟨_, _, 0, .done, .file enters there, fun _ hdir => hdir⟩
    · exact absurd (List.append_eq_nil_iff.mp hnil.symm).2 hrest
  | itself enters asked there =>
    rcases List.append_eq_cons_iff.mp hall with ⟨rfl, rfl⟩ | ⟨steps, rfl, hnil⟩
    · exact ⟨_, _, 0, .done, .itself enters asked there, fun _ hdir => hdir⟩
    · exact absurd (List.append_eq_nil_iff.mp hnil.symm).2 hrest
  | @through links dir p name target rest' e enters there follow next ih =>
    rcases List.append_eq_cons_iff.mp hall with ⟨rfl, rfl⟩ | ⟨steps, rfl, rfl⟩
    · exact ⟨_, _, _, .done, .through enters there follow next, fun _ hdir => hdir⟩
    · obtain ⟨mid, f, left, hfirst, hlast, hmid⟩ := ih (List.append_assoc ..)
      refine ⟨mid, f, left, .through (henters enters) there (by simp) hfirst, hlast,
        fun hd hdir => ?_⟩
      refine hmid hd ?_
      split
      · exact ⟨_, rfl⟩
      · exact hdir

theorem Leads.append {purpose : Purpose} {links : Nat} {steps rest : List Step} {r p : Place}
    {mode : Mode} {e : Entry} (h : Leads d .target links dir steps r (.dir mode))
    (hrest : ∀ left, Leads d purpose left r rest p e) (hne : rest ≠ [])
    (hpurpose : purpose ≠ .make) :
    Leads d purpose links dir (steps ++ rest) p e := by
  generalize hf : Entry.dir mode = f at h
  induction h with
  | done => exact hrest _
  | stay _ ih => exact .stay (ih hrest hf)
  | inside _ ih => exact .inside (ih hrest hf)
  | up _ ih => exact .up (ih hrest hf)
  | down enters there _ ih => exact .down ⟨enters.1, by simp [hpurpose]⟩ there (ih hrest hf)
  | file _ _ => exact absurd hf (by simp)
  | itself _ _ _ => exact absurd hf (by simp)
  | through enters there _ _ ih =>
    rw [List.cons_append]
    refine .through ⟨enters.1, by simp [hpurpose]⟩ there (by simp [hne]) ?_
    rw [← List.append_assoc]
    exact ih hrest hf

/-- What a path leads to through links, it also leads to if the last link is not followed. -/
theorem Leads.exists_entry {links : Nat} {steps : List Step} {p : Place} {e : Entry}
    (h : Leads d .target links dir steps p e) : ∃ q f, Leads d .entry links dir steps q f := by
  induction h with
  | done => exact ⟨_, _, .done⟩
  | stay _ ih =>
    obtain ⟨q, f, h⟩ := ih
    exact ⟨q, f, .stay h⟩
  | inside _ ih =>
    obtain ⟨q, f, h⟩ := ih
    exact ⟨q, f, .inside h⟩
  | up _ ih =>
    obtain ⟨q, f, h⟩ := ih
    exact ⟨q, f, .up h⟩
  | down enters there _ ih =>
    obtain ⟨q, f, h⟩ := ih
    exact ⟨q, f, .down ⟨enters.1, by simp⟩ there h⟩
  | file enters there => exact ⟨_, _, .file ⟨enters.1, by simp⟩ there⟩
  | itself _ asked _ => exact absurd asked (by simp)
  | @through links dir p name target rest e enters there follow _ ih =>
    by_cases hrest : rest = []
    · subst hrest
      exact ⟨_, _, .itself ⟨enters.1, by simp⟩ rfl there⟩
    · obtain ⟨q, f, h⟩ := ih
      exact ⟨q, f, .through ⟨enters.1, by simp⟩ there (by simp [hrest]) h⟩

/-- Steps without some that stay where they are. -/
inductive Trimmed : List Step → List Step → Prop
  | refl (steps : List Step) : Trimmed steps steps
  | keep (s : Step) {steps less : List Step} (h : Trimmed steps less) :
    Trimmed (s :: steps) (s :: less)
  | stay {steps less : List Step} (h : Trimmed steps less) : Trimmed (.stay :: steps) less

theorem Trimmed.append_left (front : List Step) {steps less : List Step} (h : Trimmed steps less) :
    Trimmed (front ++ steps) (front ++ less) := by
  induction front with
  | nil => exact h
  | cons s front ih => exact .keep s ih

/-- A path to a directory leads there without such steps as well. -/
theorem Leads.trim {links : Nat} {steps less : List Step} {p : Place} {mode : Mode}
    (h : Leads d .target links dir steps p (.dir mode)) (hless : Trimmed steps less) :
    Leads d .target links dir less p (.dir mode) := by
  generalize hf : Entry.dir mode = f at h ⊢
  induction h generalizing less with
  | done =>
    cases hless
    exact .done
  | stay next ih =>
    cases hless with
    | refl => exact .stay next
    | keep _ hless => exact .stay (ih hless hf)
    | stay hless => exact ih hless hf
  | inside next ih =>
    cases hless with
    | refl => exact .inside next
    | keep _ hless => exact .inside (ih hless hf)
  | up next ih =>
    cases hless with
    | refl => exact .up next
    | keep _ hless => exact .up (ih hless hf)
  | down enters there next ih =>
    cases hless with
    | refl => exact .down enters there next
    | keep _ hless => exact .down ⟨enters.1, by simp⟩ there (ih hless hf)
  | file _ _ => exact absurd hf (by simp)
  | itself _ _ _ => exact absurd hf (by simp)
  | through enters there follow next ih =>
    cases hless with
    | refl => exact .through enters there follow next
    | keep _ hless =>
      exact .through ⟨enters.1, by simp⟩ there (by simp) (ih (hless.append_left _) hf)

/-- Steps that never go up stay below a place without links. -/
theorem Leads.isPrefix {purpose : Purpose} {links : Nat} {steps : List Step}
    {r p : Place} {e : Entry}
    (h : Leads d purpose links dir steps p e) (hdir : r <+: dir) (hup : .up ∉ steps)
    (hlink : ∀ q t, r <+: q → d.get? q ≠ some (.link t)) : r <+: p := by
  have hinto : ∀ {q : Place} {name : Raw}, r <+: q → r <+: q ++ [name] := fun hq =>
    hq.trans (List.prefix_append _ _)
  induction h with
  | done => exact hdir
  | stay _ ih | inside _ ih => exact ih hdir (by simpa using hup)
  | up _ _ => exact absurd List.mem_cons_self hup
  | down _ _ _ ih => exact ih (hinto hdir) (by simpa using hup)
  | file _ _ => exact hinto hdir
  | itself _ _ there | through _ there _ _ _ => exact absurd there (hlink _ _ (hinto hdir))

theorem Leads.kind_of_into {purpose : Purpose} {links : Nat} {name : Raw} {rest : List Step}
    {p : Place} {e : Entry} (h : Leads d purpose links dir (.into name :: rest) p e)
    (hrest : rest ≠ []) : ∃ f, d.get? (dir ++ [name]) = some f ∧ f.kind ≠ .other := by
  cases h with
  | down _ there _ => exact ⟨_, there, by simp [Entry.kind]⟩
  | file _ _ => exact absurd rfl hrest
  | itself _ _ _ => exact absurd rfl hrest
  | through _ there _ _ => exact ⟨_, there, by simp [Entry.kind]⟩

theorem Leads.hasDir (hd : d.Sound) (hdir : d.HasDir dir) {links : Nat}
    {steps : List Step} {p : Place}
    {mode : Mode} (h : Leads d .target links dir steps p (.dir mode)) :
    d.get? p = some (.dir mode) := by
  have hstay : Leads d .target links dir (steps ++ [.stay]) p _ :=
    h.append (fun left => .stay .done) (by simp) (by simp)
  obtain ⟨mid, f, left, hmid, -, hhas⟩ := hstay.split (by simp)
  obtain ⟨rfl, -⟩ := h.unique hmid
  obtain ⟨mode', hget⟩ := hhas hd hdir
  have hsame := h.getD_get?
  rw [hget] at hsame ⊢
  exact congrArg some hsame

theorem leads_into_single_iff (hd : d.Sound) {purpose : Purpose} {links : Nat} {name : Raw}
    (hlink : ∀ t, d.get? (dir ++ [name]) ≠ some (.link t)) {q : Place} {e : Entry} :
    Leads d purpose links dir [.into name] q e ↔ q = dir ++ [name] ∧ d.get? q = some e := by
  constructor
  · intro h
    cases h with
    | down enters there next =>
      obtain ⟨rfl, rfl⟩ := next.unique .done
      exact ⟨rfl, by rw [there]; rfl⟩
    | file enters there => exact ⟨rfl, there⟩
    | itself _ _ there => exact absurd there (hlink _)
    | through _ there _ _ => exact absurd there (hlink _)
  · rintro ⟨rfl, hget⟩
    have henters : Enters purpose name [] := ⟨hd.short _ _ hget name (by simp), by simp⟩
    cases e with
    | file c mode => exact .file henters hget
    | link t => exact absurd hget (hlink t)
    | dir mode =>
      have hhere : (d.get? (dir ++ [name])).getD (.dir newDirMode) = .dir mode := by rw [hget]; rfl
      exact .down henters hget (hhere ▸ .done)

/-- Names behind a place without links lead to what is there. -/
theorem leads_into_iff (hd : d.Sound) {r : Place}
    (hlink : ∀ q t, r <+: q → d.get? q ≠ some (.link t))
    {purpose : Purpose} {links : Nat} {names : Place} (hnames : names ≠ []) (hdir : r <+: dir)
    {q : Place} {e : Entry} :
    Leads d purpose links dir (names.map .into) q e ↔ q = dir ++ names ∧ d.get? q = some e := by
  induction names generalizing dir with
  | nil => exact absurd rfl hnames
  | cons name names ih =>
    have hdir' : r <+: dir ++ [name] := hdir.trans (List.prefix_append _ _)
    cases names with
    | nil => exact leads_into_single_iff hd fun t => hlink _ t hdir'
    | cons next names =>
      have hassoc : dir ++ name :: next :: names = dir ++ [name] ++ (next :: names) := by simp
      rw [hassoc, ← ih (by simp) hdir', List.map_cons]
      constructor
      · intro h
        cases h with
        | down _ _ further => exact further
        | through _ there _ _ => exact absurd there (hlink _ _ hdir')
      · intro h
        obtain ⟨rfl, hget⟩ := (ih (by simp) hdir').mp h
        obtain ⟨mode, hthere⟩ := hd.hasDir_of_append hget (by simp)
        exact .down ⟨hd.short _ _ hthere name (by simp), by simp⟩ hthere h

end Steps

/-- The project root leads to a directory, with no link at or below it. -/
structure Houses (d : Disk) (cwd : Place) (projectRoot : String) (r : Place) : Prop where
  leads : ∃ mode, d.follow cwd .target (join projectRoot ".") = .ok (.taken r (.dir mode))
  linkless : ∀ q t, r <+: q → d.get? q ≠ some (.link t)

end Disk

end CastGuard
