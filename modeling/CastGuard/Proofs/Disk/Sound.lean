/-
# `CastGuard.Proofs.Disk.Sound` — disks as trees, and where their paths lead

A disk is sound if the names on it are names that a directory can hold, and if everything on it
stands in a directory.  On a sound disk the absolute path of a place leads to that place
(`spot_pathOf`), which is what makes writing by a path that was looked up safe.

A path that leads to something does so on every disk that differs only in other files
(`resolve_congr`): links are followed through directories and links alone, so a file is looked at
only where a path ends.
-/
import CastGuard.Disk.Calls
import CastGuard.Proofs.Text.Runs

namespace CastGuard

open Text

/-! ## Names -/

/-- A name that a directory can hold. -/
structure Text.Raw.IsName (name : Raw) : Prop where
  notEmpty : name ≠ .text ""
  notHere : name ≠ .text "."
  notUp : name ≠ .text ".."
  noSlash : '/' ∉ name.display.toList
  noNul : '\x00' ∉ name.display.toList

instance (name : Raw) : Decidable name.IsName :=
  decidable_of_iff (name ≠ .text "" ∧ name ≠ .text "." ∧ name ≠ .text ".." ∧
      '/' ∉ name.display.toList ∧ '\x00' ∉ name.display.toList)
    ⟨fun ⟨h₁, h₂, h₃, h₄, h₅⟩ => ⟨h₁, h₂, h₃, h₄, h₅⟩,
      fun h => ⟨h.notEmpty, h.notHere, h.notUp, h.noSlash, h.noNul⟩⟩

namespace Disk

theorem Step.ofName_of_isName {name : Raw} (h : name.IsName) : Step.ofName name = .into name := by
  simp [Step.ofName, h.notHere, h.notUp]

/-! ## Places -/

theorem get?_cons_mem {d : Disk} {p : Place} {e : Entry} (h : d.get? p = some e) (hp : p ≠ []) :
    (p, e) ∈ d.entries := by
  cases p with
  | nil => exact absurd rfl hp
  | cons name p =>
    simp only [get?, Option.map_eq_some_iff] at h
    obtain ⟨⟨q, f⟩, hfind, rfl⟩ := h
    have hq : q = name :: p := by simpa using List.find?_some hfind
    exact hq ▸ List.mem_of_find?_eq_some hfind

theorem exists_get?_of_mem {d : Disk} {p : Place} {e : Entry} (h : (p, e) ∈ d.entries) :
    ∃ f, d.get? p = some f := by
  cases p with
  | nil => exact ⟨_, rfl⟩
  | cons name p =>
    have hfind : (d.entries.find? fun e => e.1 = name :: p).isSome = true :=
      List.find?_isSome.mpr ⟨_, h, by simp⟩
    obtain ⟨⟨q, f⟩, hfind⟩ := Option.isSome_iff_exists.mp hfind
    exact ⟨f, by simp [get?, hfind]⟩

theorem find?_put (p q : Place) (e : Entry) (es : List (Place × Entry)) :
    ((put p e es).find? fun f => f.1 = q).map Prod.snd =
      if q = p then some e else (es.find? fun f => f.1 = q).map Prod.snd := by
  induction es with
  | nil =>
    by_cases h : q = p
    · simp [put, h]
    · simp [put, h, Ne.symm h]
  | cons f es ih =>
    obtain ⟨r, f⟩ := f
    by_cases hr : r = p
    · by_cases hq : q = p
      · simp [put, hr, hq]
      · simp [put, hr, hq, Ne.symm hq]
    · simp only [put, if_neg hr]
      by_cases hq : q = p
      · have hne : r ≠ q := fun heq => hr (heq.trans hq)
        simpa [List.find?_cons, hne] using ih
      · by_cases hrq : r = q
        · simp [hrq, hq]
        · simpa [List.find?_cons, hrq] using ih

theorem get?_set (d : Disk) {p : Place} (hp : p ≠ []) (q : Place) (e : Entry) :
    (d.set p e).get? q = if q = p then some e else d.get? q := by
  cases q with
  | nil => simp [get?, Ne.symm hp]
  | cons name q => exact find?_put p (name :: q) e d.entries

theorem get?_erase (d : Disk) {p : Place} (hp : p ≠ []) (q : Place) :
    (d.erase p).get? q = if q = p then none else d.get? q := by
  cases q with
  | nil => simp [get?, Ne.symm hp]
  | cons name q =>
    simp only [get?, erase, List.find?_filter]
    by_cases hq : name :: q = p
    · simp [hq]
    · rw [if_neg hq]
      congr 2
      funext f
      by_cases hf : f.1 = name :: q
      · simp [hf, hq]
      · simp [hf]

/-- Names are proper and not too long, and everything stands in a directory. -/
structure Sound (d : Disk) : Prop where
  named : ∀ p e, d.get? p = some e → ∀ name ∈ p, name.IsName
  short : ∀ p e, d.get? p = some e → ∀ name ∈ p, name.size ≤ maxNameSize
  parent : ∀ p e, d.get? p = some e → p ≠ [] → (d.get? p.dropLast).map Entry.kind = some .directory

theorem Sound.of_entries {d : Disk}
    (hnamed : ∀ e ∈ d.entries, ∀ name ∈ e.1, name.IsName ∧ name.size ≤ maxNameSize)
    (hparent : ∀ e ∈ d.entries, (d.get? e.1.dropLast).map Entry.kind = some .directory) :
    d.Sound := by
  have hboth : ∀ p e, d.get? p = some e → ∀ name ∈ p, name.IsName ∧ name.size ≤ maxNameSize :=
    fun p e h name hname => hnamed _ (get?_cons_mem h (List.ne_nil_of_mem hname)) name hname
  exact ⟨fun p e h name hname => (hboth p e h name hname).1,
    fun p e h name hname => (hboth p e h name hname).2,
    fun p e h hp => hparent _ (get?_cons_mem h hp)⟩

theorem kind_eq_directory_iff {e : Entry} : e.kind = .directory ↔ ∃ mode, e = .dir mode := by
  cases e <;> simp [Entry.kind]

theorem Sound.parent_dir {d : Disk} (hd : d.Sound) {p : Place} {name : Raw} {e : Entry}
    (h : d.get? (p ++ [name]) = some e) : ∃ mode, d.get? p = some (.dir mode) := by
  have hparent := hd.parent _ _ h (by simp)
  rw [List.dropLast_concat, Option.map_eq_some_iff] at hparent
  obtain ⟨f, hget, hkind⟩ := hparent
  obtain ⟨mode, rfl⟩ := kind_eq_directory_iff.mp hkind
  exact ⟨mode, hget⟩

theorem Sound.dir_of_append {d : Disk} (hd : d.Sound) {p q : Place} {mode : Mode}
    (h : d.get? (p ++ q) = some (.dir mode)) : ∃ mode', d.get? p = some (.dir mode') := by
  induction q generalizing p with
  | nil => exact ⟨mode, by simpa using h⟩
  | cons name q ih =>
    obtain ⟨mode', h'⟩ := ih (p := p ++ [name]) (by simpa using h)
    exact hd.parent_dir h'

/-! ## Following steps -/

section Resolve

variable {d : Disk} {purpose : Purpose} {links : Nat} {dir : Place}

theorem resolve_nil : d.resolve purpose links dir [] =
    .ok (.taken dir ((d.get? dir).getD (.dir newDirMode))) := by
  cases links <;> rfl

theorem resolve_stay (rest : List Step) :
    d.resolve purpose links dir (.stay :: rest) = d.resolve purpose links dir rest := by
  cases links <;> rfl

theorem resolve_inside (rest : List Step) :
    d.resolve purpose links dir (.inside :: rest) = d.resolve purpose links dir rest := by
  cases links <;> rfl

theorem resolve_up (rest : List Step) :
    d.resolve purpose links dir (.up :: rest) = d.resolve purpose links dir.dropLast rest := by
  cases links <;> rfl

theorem resolve_into (name : Raw) (rest : List Step) :
    d.resolve purpose links dir (.into name :: rest) =
      if purpose = .make ∧ rest = [.inside] then .error .isDirectory
      else if maxNameSize < name.size then .error .nameTooLong
      else match d.get? (dir ++ [name]) with
        | none => if rest.isEmpty then .ok (.free (dir ++ [name])) else .error .missing
        | some (.dir _) => d.resolve purpose links (dir ++ [name]) rest
        | some (.file c mode) =>
          if rest.isEmpty then .ok (.taken (dir ++ [name]) (.file c mode)) else .error .notDirectory
        | some (.link target) =>
          if rest.isEmpty ∧ purpose = .entry then .ok (.taken (dir ++ [name]) (.link target))
          else match links with
            | 0 => .error .tooManyLinks
            | links + 1 =>
              d.resolve purpose links (if (Route.ofPath target).fromTop then [] else dir)
                ((Route.ofPath target).steps ++ rest) := by
  cases links <;> rfl

theorem resolve_into_dir {name : Raw} {rest : List Step} {mode : Mode}
    (hget : d.get? (dir ++ [name]) = some (.dir mode)) (hsize : name.size ≤ maxNameSize)
    (hrest : rest ≠ [.inside]) :
    d.resolve purpose links dir (.into name :: rest) =
      d.resolve purpose links (dir ++ [name]) rest := by
  rw [resolve_into]
  simp [hget, hrest, Nat.not_lt.mpr hsize]

theorem resolve_into_last {name : Raw} (hsize : name.size ≤ maxNameSize)
    (hlink : ∀ t, d.get? (dir ++ [name]) ≠ some (.link t)) :
    d.resolve purpose links dir [.into name] =
      .ok ((d.get? (dir ++ [name])).elim (.free (dir ++ [name])) (.taken (dir ++ [name]))) := by
  rw [resolve_into]
  simp only [List.isEmpty_nil, Nat.not_lt.mpr hsize, if_false, List.ne_cons_self]
  cases hget : d.get? (dir ++ [name]) with
  | none => simp
  | some e =>
    cases e with
    | file c mode => simp
    | dir mode => simp [resolve_nil, hget]
    | link t => exact absurd hget (hlink t)

def Enters (purpose : Purpose) (name : Raw) (rest : List Step) : Prop :=
  name.size ≤ maxNameSize ∧ ¬ (purpose = .make ∧ rest = [.inside])

/-- How steps lead to something. -/
inductive Leads (d : Disk) (purpose : Purpose) : Nat → Place → List Step → Place → Entry → Prop
  | done {links : Nat} {dir : Place} :
      Leads d purpose links dir [] dir ((d.get? dir).getD (.dir newDirMode))
  | stay {links : Nat} {dir p : Place} {rest : List Step} {e : Entry}
      (next : Leads d purpose links dir rest p e) : Leads d purpose links dir (.stay :: rest) p e
  | inside {links : Nat} {dir p : Place} {rest : List Step} {e : Entry}
      (next : Leads d purpose links dir rest p e) : Leads d purpose links dir (.inside :: rest) p e
  | up {links : Nat} {dir p : Place} {rest : List Step} {e : Entry}
      (next : Leads d purpose links dir.dropLast rest p e) :
      Leads d purpose links dir (.up :: rest) p e
  | down {links : Nat} {dir p : Place} {name : Raw} {rest : List Step} {mode : Mode} {e : Entry}
      (enters : Enters purpose name rest) (there : d.get? (dir ++ [name]) = some (.dir mode))
      (next : Leads d purpose links (dir ++ [name]) rest p e) :
      Leads d purpose links dir (.into name :: rest) p e
  | file {links : Nat} {dir : Place} {name : Raw} {c : Raw} {mode : Mode}
      (enters : Enters purpose name []) (there : d.get? (dir ++ [name]) = some (.file c mode)) :
      Leads d purpose links dir [.into name] (dir ++ [name]) (.file c mode)
  | itself {links : Nat} {dir : Place} {name target : Raw} (enters : Enters purpose name [])
      (asked : purpose = .entry) (there : d.get? (dir ++ [name]) = some (.link target)) :
      Leads d purpose links dir [.into name] (dir ++ [name]) (.link target)
  | through {links : Nat} {dir p : Place} {name target : Raw} {rest : List Step} {e : Entry}
      (enters : Enters purpose name rest) (there : d.get? (dir ++ [name]) = some (.link target))
      (follow : ¬ (rest = [] ∧ purpose = .entry))
      (next : Leads d purpose links (if (Route.ofPath target).fromTop then [] else dir)
        ((Route.ofPath target).steps ++ rest) p e) :
      Leads d purpose (links + 1) dir (.into name :: rest) p e

theorem leads_of_resolveWith {through : Option (Place → List Step → Except IoError Spot)}
    {steps : List Step} {p : Place} {e : Entry}
    (hthrough : ∀ go, through = some go → ∃ left, links = left + 1 ∧
      ∀ dir steps, go dir steps = .ok (.taken p e) → Leads d purpose left dir steps p e)
    (h : d.resolveWith purpose through dir steps = .ok (.taken p e)) :
    Leads d purpose links dir steps p e := by
  fun_induction resolveWith d purpose through dir steps with
  | case1 dir =>
    obtain ⟨rfl, rfl⟩ : dir = p ∧ (d.get? dir).getD (.dir newDirMode) = e := by simpa using h
    exact .done
  | case2 dir rest ih => exact .stay (ih h)
  | case3 dir rest ih => exact .inside (ih h)
  | case4 dir rest ih => exact .up (ih h)
  | case5 | case6 | case7 | case8 | case11 | case13 => exact absurd h (by simp)
  | case9 dir name rest q hmake hsize mode hget ih =>
    exact .down ⟨Nat.le_of_not_lt hsize, hmake⟩ hget (ih h)
  | case10 dir name rest q hmake hsize c mode hget hrest =>
    obtain ⟨rfl, rfl⟩ : q = p ∧ .file c mode = e := by simpa using h
    obtain rfl := List.isEmpty_iff.mp hrest
    exact .file ⟨Nat.le_of_not_lt hsize, hmake⟩ hget
  | case12 dir name rest q hmake hsize target hget hentry =>
    obtain ⟨rfl, rfl⟩ : q = p ∧ .link target = e := by simpa using h
    obtain rfl := List.isEmpty_iff.mp hentry.1
    exact .itself ⟨Nat.le_of_not_lt hsize, hmake⟩ hentry.2 hget
  | case14 dir name rest q hmake hsize target hget hentry go hgo route =>
    obtain ⟨left, rfl, hgo⟩ := hthrough go hgo
    exact .through ⟨Nat.le_of_not_lt hsize, hmake⟩ hget (by simpa using hentry) (hgo _ _ h)

theorem leads_of_resolve {steps : List Step} {p : Place} {e : Entry}
    (h : d.resolve purpose links dir steps = .ok (.taken p e)) :
    Leads d purpose links dir steps p e := by
  induction links generalizing dir steps with
  | zero => exact leads_of_resolveWith (by simp) h
  | succ links ih =>
    refine leads_of_resolveWith (fun go hgo => ⟨links, rfl, fun dir steps hsteps => ?_⟩) h
    exact ih (Option.some.inj hgo ▸ hsteps)

theorem resolve_of_leads {steps : List Step} {p : Place} {e : Entry}
    (h : Leads d purpose links dir steps p e) :
    d.resolve purpose links dir steps = .ok (.taken p e) := by
  induction h with
  | done => rw [resolve_nil]
  | stay _ ih => rw [resolve_stay, ih]
  | inside _ ih => rw [resolve_inside, ih]
  | up _ ih => rw [resolve_up, ih]
  | down enters there _ ih =>
    rw [resolve_into]
    simpa [enters.2, Nat.not_lt.mpr enters.1, there] using ih
  | file enters there =>
    rw [resolve_into]
    simp [Nat.not_lt.mpr enters.1, there]
  | itself enters asked there =>
    rw [resolve_into]
    simp [Nat.not_lt.mpr enters.1, there, asked]
  | through enters there follow _ ih =>
    rw [resolve_into]
    simpa [enters.2, Nat.not_lt.mpr enters.1, there, follow] using ih

theorem resolve_eq_taken_iff {steps : List Step} {p : Place} {e : Entry} :
    d.resolve purpose links dir steps = .ok (.taken p e) ↔ Leads d purpose links dir steps p e :=
  ⟨leads_of_resolve, resolve_of_leads⟩

theorem Leads.getD_get? {steps : List Step} {p : Place} {e : Entry}
    (h : Leads d purpose links dir steps p e) : (d.get? p).getD (.dir newDirMode) = e := by
  induction h with
  | done => rfl
  | stay _ ih | inside _ ih | up _ ih | down _ _ _ ih | through _ _ _ _ ih => exact ih
  | file _ there | itself _ _ there => rw [there]; rfl

theorem Leads.get?_of_file {steps : List Step} {p : Place} {c : Raw} {mode : Mode}
    (h : Leads d purpose links dir steps p (.file c mode)) : d.get? p = some (.file c mode) := by
  have hget := h.getD_get?
  cases hp : d.get? p with
  | none => exact absurd (hp ▸ hget) (by simp)
  | some e => exact congrArg some (by simpa [hp] using hget)

/-- Directories and links are where they were, on a disk that differs only where there were files or
nothing. -/
theorem get?_of_untouched {d' : Disk} {touched : List Place}
    (hsame : ∀ q, q ∉ touched → d'.get? q = d.get? q)
    (hleaf : ∀ q ∈ touched, (d.get? q).all (fun f => f.kind = .other) = true)
    {q : Place} {f : Entry}
    (hget : d.get? q = some f) (hkind : f.kind ≠ .other) : d'.get? q = some f := by
  have hq : q ∉ touched := fun hq => absurd (hleaf q hq) (by simp [hget, hkind])
  rw [hsame q hq, hget]

/-- Steps lead to the same on a disk that differs only where there were files or nothing, unless
they lead there. -/
theorem Leads.congr {d' : Disk} {steps : List Step} {p : Place} {e : Entry} (touched : List Place)
    (hsame : ∀ q, q ∉ touched → d'.get? q = d.get? q)
    (hleaf : ∀ q ∈ touched, (d.get? q).all (fun f => f.kind = .other) = true)
    (h : Leads d purpose links dir steps p e) (hp : p ∉ touched) :
    Leads d' purpose links dir steps p e := by
  induction h with
  | done =>
    rw [← hsame _ hp]
    exact .done
  | stay _ ih => exact .stay (ih hp)
  | inside _ ih => exact .inside (ih hp)
  | up _ ih => exact .up (ih hp)
  | down enters there _ ih =>
    exact .down enters (get?_of_untouched hsame hleaf there (by simp [Entry.kind])) (ih hp)
  | file enters there => exact .file enters ((hsame _ hp).trans there)
  | itself enters asked there => exact .itself enters asked ((hsame _ hp).trans there)
  | through enters there follow _ ih =>
    exact .through enters (get?_of_untouched hsame hleaf there (by simp [Entry.kind])) follow
      (ih hp)

end Resolve

/-! ## Whole paths -/

theorem spot_eq_taken_iff {d : Disk} {cwd : Place} {purpose : Purpose} {path : String} {p : Place}
    {e : Entry} :
    d.spot cwd purpose path = .ok (.taken p e) ↔
      (isPath path = true → path.utf8ByteSize ≤ maxPathSize) ∧
        d.follow cwd purpose path = .ok (.taken p e) := by
  rw [spot]
  by_cases hlong : isPath path = true ∧ maxPathSize < path.utf8ByteSize
  · rw [if_pos hlong]
    simp [hlong.1, Nat.not_le.mpr hlong.2]
  · rw [if_neg hlong]
    refine ⟨fun h => ⟨fun hpath => ?_, h⟩, And.right⟩
    exact Nat.le_of_not_lt fun hsize => hlong ⟨hpath, hsize⟩

theorem target_eq_ok_iff_spot {d : Disk} {cwd : Place} {path : String} {p : Place} {e : Entry} :
    d.target cwd path = .ok (p, e) ↔ d.spot cwd .target path = .ok (.taken p e) := by
  rw [target]
  cases d.spot cwd .target path with
  | error e => simp [Except.bind]
  | ok spot => cases spot <;> simp [Except.bind, Spot.occupant]

theorem target_eq_ok_iff {d : Disk} {cwd : Place} {path : String} {p : Place} {e : Entry} :
    d.target cwd path = .ok (p, e) ↔
      (isPath path = true → path.utf8ByteSize ≤ maxPathSize) ∧
        d.follow cwd .target path = .ok (.taken p e) :=
  target_eq_ok_iff_spot.trans spot_eq_taken_iff

theorem follow_eq_taken_iff {d : Disk} {cwd : Place} {purpose : Purpose} {path : String} {p : Place}
    {e : Entry} :
    d.follow cwd purpose path = .ok (.taken p e) ↔
      isPath path = true ∧ path ≠ "" ∧
        Leads d purpose maxLinks (if (Route.ofPath (.text path)).fromTop then [] else cwd)
          (Route.ofPath (.text path)).steps p e := by
  rw [follow, ← resolve_eq_taken_iff]
  by_cases hpath : isPath path = true
  · by_cases hempty : path = ""
    · subst hempty
      simp [hpath]
    · simp [hpath, hempty]
  · simp [hpath]

theorem get?_of_target {d : Disk} {cwd : Place} {path : String} {p : Place} {c : Raw} {mode : Mode}
    (h : d.target cwd path = .ok (p, .file c mode)) : d.get? p = some (.file c mode) :=
  (follow_eq_taken_iff.mp (target_eq_ok_iff.mp h).2).2.2.get?_of_file

/-- A path leads to the same on a disk that differs only where there were files or nothing, unless
it leads there. -/
theorem target_congr {d d' : Disk} {cwd : Place} {path : String} {p : Place} {e : Entry}
    (touched : List Place) (hsame : ∀ q, q ∉ touched → d'.get? q = d.get? q)
    (hleaf : ∀ q ∈ touched, (d.get? q).all (fun f => f.kind = .other) = true)
    (h : d.target cwd path = .ok (p, e)) (hp : p ∉ touched) : d'.target cwd path = .ok (p, e) := by
  obtain ⟨hsize, hfollow⟩ := target_eq_ok_iff.mp h
  obtain ⟨hpath, hne, hleads⟩ := follow_eq_taken_iff.mp hfollow
  exact target_eq_ok_iff.mpr
    ⟨hsize, follow_eq_taken_iff.mpr ⟨hpath, hne, hleads.congr touched hsame hleaf hp⟩⟩

/-! ## Absolute paths -/

theorem toList_pathOf {p : Place} (hp : p ≠ []) :
    (pathOf p).toList = p.flatMap fun name => '/' :: name.display.toList := by
  simp only [pathOf, List.isEmpty_iff, hp, if_false, String.toList_join, List.flatMap_map]
  congr 1
  funext name
  exact String.toList_append

theorem parts_flatMap (name : Raw) {p : Place} (hname : name.IsName) (hnames : ∀ n ∈ p, n.IsName) :
    parts '/' (name.display.toList ++ p.flatMap fun n => '/' :: n.display.toList) =
      (name :: p).map fun n => n.display.toList := by
  induction p generalizing name with
  | nil => simp [parts_of_notMem hname.noSlash]
  | cons n p ih =>
    obtain ⟨hn, hp⟩ := List.forall_mem_cons.mp hnames
    rw [List.flatMap_cons, List.cons_append, parts_append_cons hname.noSlash, ih n hn hp]
    rfl

/-- The names of a place are read back from its absolute path. -/
theorem namesOf_pathOf {p : Place} (hp : p ≠ []) (htext : ∀ n ∈ p, n.text?.isSome = true)
    (hnames : ∀ n ∈ p, n.IsName) : namesOf (.text (pathOf p)) = .text "" :: p := by
  cases p with
  | nil => exact absurd rfl hp
  | cons name p =>
    obtain ⟨hname, hrest⟩ := List.forall_mem_cons.mp hnames
    have hread : ∀ n ∈ name :: p, Raw.text (String.ofList n.display.toList) = n := by
      intro n hn
      cases n with
      | text s => simp [Raw.display]
      | bytes bs => exact absurd (htext _ hn) (by simp [Raw.text?])
    have hparts : parts '/' (pathOf (name :: p)).toList =
        [] :: (name :: p).map fun n => n.display.toList := by
      rw [toList_pathOf hp, List.flatMap_cons, List.cons_append, parts, if_pos rfl,
        parts_flatMap name hname hrest]
    rw [namesOf, hparts, List.map_cons, List.map_map]
    exact congrArg _ ((List.map_congr_left hread).trans (List.map_id _))

theorem ofPath_pathOf {p : Place} (hp : p ≠ []) (htext : ∀ n ∈ p, n.text?.isSome = true)
    (hnames : ∀ n ∈ p, n.IsName) : Route.ofPath (.text (pathOf p)) = ⟨true, p.map .into⟩ := by
  have hfilter : p.filter (fun n => !decide (n = .text "")) = p :=
    List.filter_eq_self.mpr fun n hn => by simp [(hnames n hn).notEmpty]
  have hsteps : p.map Step.ofName = p.map .into :=
    List.map_congr_left fun n hn => Step.ofName_of_isName (hnames n hn)
  have hlast : (Raw.text "" :: p).getLast? ≠ some (.text "") := by
    rw [List.getLast?_cons_of_ne_nil hp]
    intro hlast
    exact (hnames _ (List.mem_of_getLast? hlast)).notEmpty rfl
  have hlength : 0 < p.length := List.length_pos_iff.mpr hp
  simp [Route.ofPath, namesOf_pathOf hp htext hnames, hfilter, hsteps, hlast, hlength]

theorem isPath_pathOf {p : Place} (hp : p ≠ []) (hnames : ∀ n ∈ p, n.IsName) :
    isPath (pathOf p) = true := by
  simp only [isPath, toList_pathOf hp, Bool.not_eq_true', List.contains_eq_mem,
    decide_eq_false_iff_not, List.mem_flatMap, List.mem_cons, not_exists, not_and, not_or]
  exact fun n hn => ⟨by decide, (hnames n hn).noNul⟩

theorem resolve_into_append {d : Disk} (hd : d.Sound) (purpose : Purpose) (links : Nat)
    {dir p : Place} {rest : List Step} {mode : Mode} (hget : d.get? (dir ++ p) = some (.dir mode))
    (hrest : rest ≠ [.inside]) :
    d.resolve purpose links dir (p.map .into ++ rest) =
      d.resolve purpose links (dir ++ p) rest := by
  induction p generalizing dir with
  | nil => simp
  | cons name p ih =>
    have hassoc : dir ++ name :: p = dir ++ [name] ++ p := by simp
    rw [hassoc] at hget ⊢
    obtain ⟨mode', hfirst⟩ := hd.dir_of_append hget
    have hsize := hd.short _ _ hfirst name (by simp)
    have hnext : p.map Step.into ++ rest ≠ [.inside] := by
      cases p with
      | nil => simpa using hrest
      | cons n p => simp
    rw [List.map_cons, List.cons_append, resolve_into_dir hfirst hsize hnext, ih hget]

/-- The absolute path of a place in a directory leads there, unless it is too long. -/
theorem spot_pathOf {d : Disk} (hd : d.Sound) (cwd : Place) (purpose : Purpose) {dir : Place}
    {name : Raw} {mode : Mode} (hget : d.get? dir = some (.dir mode)) (hname : name.IsName)
    (htext : ∀ n ∈ dir ++ [name], n.text?.isSome = true)
    (hlink : ∀ t, d.get? (dir ++ [name]) ≠ some (.link t)) :
    d.spot cwd purpose (pathOf (dir ++ [name])) =
      if maxPathSize < (pathOf (dir ++ [name])).utf8ByteSize ∨ maxNameSize < name.size then
        .error .nameTooLong
      else .ok ((d.get? (dir ++ [name])).elim (.free (dir ++ [name]))
        (.taken (dir ++ [name]))) := by
  have hne : dir ++ [name] ≠ [] := by simp
  have hnames : ∀ n ∈ dir ++ [name], n.IsName := by
    intro n hn
    rcases List.mem_append.mp hn with hn | hn
    · exact hd.named _ _ hget n hn
    · exact List.mem_singleton.mp hn ▸ hname
  have hnonempty : (pathOf (dir ++ [name])).isEmpty = false := by
    rw [← Bool.not_eq_true, String.isEmpty_iff, ← String.toList_inj, toList_pathOf hne]
    simp
  have hroute : d.resolve purpose maxLinks [] ((dir ++ [name]).map .into) =
      d.resolve purpose maxLinks dir [.into name] := by
    rw [List.map_append]
    exact resolve_into_append (p := dir) hd purpose maxLinks (by simpa using hget) (by simp)
  have hfollow : d.follow cwd purpose (pathOf (dir ++ [name])) =
      d.resolve purpose maxLinks dir [.into name] := by
    rw [← hroute]
    simp [follow, isPath_pathOf hne hnames, ofPath_pathOf hne htext hnames, hnonempty]
  rw [spot, hfollow, isPath_pathOf hne hnames]
  by_cases hlong : maxPathSize < (pathOf (dir ++ [name])).utf8ByteSize
  · simp [hlong]
  by_cases hsize : maxNameSize < name.size
  · have hstuck : d.resolve purpose maxLinks dir [.into name] = .error .nameTooLong := by
      rw [resolve_into]
      simp [hsize]
    simp [hlong, hsize, hstuck]
  · simp [hlong, hsize, resolve_into_last (Nat.le_of_not_lt hsize) hlink]

end Disk

end CastGuard
