/-
# `CastGuard.Proofs.Run.Atomicity` — a run does its first scripts in full and leaves the rest alone

A run over scripts in memory, with any faults put in, ends in one of four ways.  Its style is not
sound; the scripts cannot be listed; it visits all scripts; or it stops at the first script whose
reading or writing fails.  `Ends` has a constructor for each and says what is then in memory: in the
last case the scripts before the failing one hold their fixed texts, and that one and all later ones
hold the texts they had.  Paths, their spellings and all other scripts never change.

What one visit does is said once (`visit_memory`), in terms of the memory that it finds.  The
induction over the paths then needs that a visit does not disturb later ones, and for that the paths
of a map have to be pairwise different, whatever their spelling: this is where the order of the map
comes in.

An error that puts the settings at fault says that nothing was read, with one exception: a failing
read or write may carry such an error itself, and then it is handed on as it is (`Ends.unread`).
-/
import CastGuard.Proofs.Run.Logged
import CastGuard.Proofs.ScriptPath.Order
import CastGuard.Store.Memory

namespace CastGuard

open ScriptPath

instance decidableEqResult {ε α : Type} [DecidableEq ε] [DecidableEq α] :
    DecidableEq (Except ε α)
  | .error e, .error e' => decidable_of_iff (e = e') (by simp)
  | .ok a, .ok a' => decidable_of_iff (a = a') (by simp)
  | .error _, .ok _ => isFalse (by simp)
  | .ok _, .error _ => isFalse (by simp)

/-! ## Failures and what is told of them -/

/-- The failure has the error as its cause, through any remarks. -/
inductive StoreError.Carries : StoreError → RunError → Prop
  | known (e : RunError) : Carries (.known e) e
  | within {e : StoreError} {cause : RunError} (remark : String) (h : Carries e cause) :
      Carries (.within remark e) cause

/-- What a run tells of a failure: its cause or, if there is none, its outermost words. -/
inductive StoreError.Tells (e : StoreError) : RunError → Prop
  | cause {error : RunError} (h : e.Carries error) : Tells e error
  | words (h : ∀ error, ¬ e.Carries error) : Tells e (.runtime e.words)

theorem StoreError.cause?_eq_some_iff {e : StoreError} {error : RunError} :
    e.cause? = some error ↔ e.Carries error := by
  induction e with
  | known e' =>
    constructor
    · intro h
      obtain rfl : e' = error := by simpa [StoreError.cause?] using h
      exact .known e'
    · rintro ⟨⟩
      rfl
  | plain words => exact ⟨fun h => absurd h (by simp [StoreError.cause?]), nofun⟩
  | within remark e ih =>
    constructor
    · exact fun h => .within remark (ih.mp h)
    · rintro (_ | ⟨_, h⟩)
      exact ih.mpr h

theorem StoreError.tells_toRunError (e : StoreError) : e.Tells e.toRunError := by
  unfold StoreError.toRunError
  cases h : e.cause? with
  | some error => exact .cause (StoreError.cause?_eq_some_iff.mp h)
  | none =>
    refine .words fun error hcarries => ?_
    rw [StoreError.cause?_eq_some_iff.mpr hcarries] at h
    exact absurd h (by simp)

/-- How the visit of a script fails: when it is read or, if it changes and is to be written, when it
is written. -/
inductive Fails (faults : List Fault) (dryRun : Bool) (fixer : Fixer) (mem : Memory)
    (path : String) : StoreError → Prop
  | read {e : StoreError} (fault : faultFor? faults (.read path) = some e) :
      Fails faults dryRun fixer mem path e
  | write {e : StoreError} {text : String} (readable : faultFor? faults (.read path) = none)
      (found : mem.get? path = some text) (wet : dryRun = false)
      (changes : (fixer.fix text).text ≠ text)
      (fault : faultFor? faults (.write path) = some e) : Fails faults dryRun fixer mem path e

theorem Fails.of_readable {faults : List Fault} {dryRun : Bool} {fixer : Fixer} {mem : Memory}
    {path : String} {e : StoreError} (h : Fails faults dryRun fixer mem path e)
    (hread : faultFor? faults (.read path) = none) :
    dryRun = false ∧ faultFor? faults (.write path) = some e ∧
      ∃ text, mem.get? path = some text ∧ (fixer.fix text).text ≠ text := by
  cases h with
  | read hfault => exact absurd (hread.symm.trans hfault) (by simp)
  | write _ hfound hwet hchanges hfault => exact ⟨hwet, hfault, _, hfound, hchanges⟩

/-! ## What becomes of memory -/

/-- The memories there are: built from a list of scripts, and written to. -/
inductive Memory.Built : Memory → Prop
  | ofList (scripts : List (String × String)) : Built (Memory.ofList scripts)
  | write {mem : Memory} (h : Built mem) (path text : String) : Built (mem.write path text)

theorem Memory.Built.ordered {mem : Memory} (h : mem.Built) : mem.scripts.Ordered := by
  induction h with
  | ofList scripts => exact PathMap.ordered_ofList scripts
  | write _ path text ih => exact ih.insertWith fun _ => .inl rfl

/-- The scripts at some paths are fixed, unless the run is dry, and nothing else happens. -/
structure Memory.Rewrites (dryRun : Bool) (fixer : Fixer) (done : List String)
    (mem mem' : Memory) : Prop where
  paths : mem'.scripts.paths = mem.scripts.paths
  fixed : dryRun = false → ∀ p ∈ done, ∃ text, mem.get? p = some text ∧
    mem'.get? p = some (fixer.fix text).text
  other : ∀ q, (∀ p ∈ done, same q p = false) → mem'.get? q = mem.get? q
  dry : dryRun = true → mem' = mem

theorem Memory.Rewrites.refl (dryRun : Bool) (fixer : Fixer) (mem : Memory) :
    mem.Rewrites dryRun fixer [] mem :=
  ⟨rfl, fun _ _ hp => absurd hp List.not_mem_nil, fun _ _ => rfl, fun _ => rfl⟩

/-- Scripts that are fixed one after the other are all fixed, if they are different ones. -/
theorem Memory.Rewrites.cons {dryRun : Bool} {fixer : Fixer} {path : String} {done : List String}
    {mem mem₁ mem' : Memory} (h : mem.Rewrites dryRun fixer [path] mem₁)
    (h' : mem₁.Rewrites dryRun fixer done mem') (hdistinct : ∀ q ∈ done, same path q = false) :
    mem.Rewrites dryRun fixer (path :: done) mem' := by
  refine ⟨h'.paths.trans h.paths, ?_, ?_, fun hdry => (h'.dry hdry).trans (h.dry hdry)⟩
  · intro hwet p hp
    rcases List.mem_cons.mp hp with rfl | hp
    · obtain ⟨text, hold, hnew⟩ := h.fixed hwet p List.mem_cons_self
      exact ⟨text, hold, (h'.other p hdistinct).trans hnew⟩
    · obtain ⟨text, hold, hnew⟩ := h'.fixed hwet p hp
      have hsame : same p path = false := by
        rw [← Bool.not_eq_true]
        intro hsame
        exact absurd (same_symm hsame) (by simp [hdistinct p hp])
      exact ⟨text, (h.other p (by simpa using hsame)).symm.trans hold, hnew⟩
  · intro q hq
    obtain ⟨hpath, hdone⟩ := List.forall_mem_cons.mp hq
    rw [h'.other q hdone, h.other q (by simpa using hpath)]

theorem Memory.Rewrites.get?_later {dryRun : Bool} {fixer : Fixer} {path : String}
    {paths : List String}
    {mem mem₁ : Memory} (h : mem.Rewrites dryRun fixer [path] mem₁)
    (hdistinct : ∀ q ∈ paths, same path q = false) : ∀ q ∈ paths, mem₁.get? q = mem.get? q := by
  intro q hq
  refine h.other q fun p hp => ?_
  rw [List.mem_singleton.mp hp, ← Bool.not_eq_true]
  intro hsame
  exact absurd (same_symm hsame) (by simp [hdistinct q hq])

theorem Memory.rewrites_write {fixer : Fixer} {mem : Memory} {path text : String}
    (hmem : mem.scripts.Ordered) (hpath : path ∈ mem.scripts.paths)
    (htext : mem.get? path = some text) :
    mem.Rewrites false fixer [path] (mem.write path (fixer.fix text).text) := by
  have hget : ∀ q, (mem.write path (fixer.fix text).text).get? q =
      if same q path = true then some (fixer.fix text).text else mem.get? q :=
    fun q => PathMap.get?_set path q _ mem.scripts
  refine ⟨PathMap.paths_set hmem hpath _, ?_, ?_, nofun⟩
  · intro _ p hp
    obtain rfl := List.mem_singleton.mp hp
    exact ⟨text, htext, by rw [hget, if_pos (same_refl p)]⟩
  · intro q hq
    have hsame := hq path List.mem_cons_self
    rw [hget, if_neg (by simp [hsame])]

theorem Memory.rewrites_kept {dryRun : Bool} {fixer : Fixer} {mem : Memory} {path text : String}
    (htext : mem.get? path = some text) (h : dryRun = false → (fixer.fix text).text = text) :
    mem.Rewrites dryRun fixer [path] mem := by
  refine ⟨rfl, ?_, fun _ _ => rfl, fun _ => rfl⟩
  intro hwet p hp
  obtain rfl := List.mem_singleton.mp hp
  exact ⟨text, htext, by rw [h hwet, htext]⟩

/-! ## One visit -/

theorem run_bind_of_run {σ α β : Type} {act : StateM σ α} {next : α → StateM σ β} {s s' : σ} {a : α}
    (h : act.run s = (a, s')) : (act >>= next).run s = (next a).run s' := by
  rw [StateT.run_bind, h]
  rfl

section Visits

variable (faults : List Fault) (fixer : Fixer)

theorem read_memory {path text : String} {mem : Memory} (h : mem.get? path = some text) :
    ((Memory.store.withFaults faults).read path).run mem =
      (match faultFor? faults (.read path) with
        | some e => .error e
        | none => .ok text, mem) := by
  change (orFault faults (.read path) (Memory.store.read path)).run mem = _
  unfold orFault
  cases faultFor? faults (.read path) with
  | some e => rfl
  | none =>
    simp only [Memory.store, StateT.run_bind, StateT.run_get, pure_bind, h]
    rfl

theorem write_memory (path text : String) (mem : Memory) :
    ((Memory.store.withFaults faults).write path text).run mem =
      match faultFor? faults (.write path) with
      | some e => (.error e, mem)
      | none => (.ok (), mem.write path text) := by
  change (orFault faults (.write path) (Memory.store.write path text)).run mem = _
  unfold orFault
  cases faultFor? faults (.write path) with
  | some e => rfl
  | none => rfl

theorem visit_run {mem : Memory} {path text : String} (h : mem.get? path = some text)
    (r : Report) :
    (visit (Memory.store.withFaults faults) fixer r path).run mem =
      match faultFor? faults (.read path) with
      | some e => (.error e.toRunError, mem)
      | none =>
        if (fixer.fix text).text = text then (.ok r.scan, mem)
        else if r.dryRun then (.ok (r.scan.change path text (fixer.fix text)), mem)
        else match faultFor? faults (.write path) with
          | some e => (.error e.toRunError, mem)
          | none => (.ok (r.scan.change path text (fixer.fix text)),
              mem.write path (fixer.fix text).text) := by
  have hread := read_memory faults h
  unfold visit
  rw [run_bind_of_run hread]
  cases faultFor? faults (.read path) with
  | some e => rfl
  | none =>
    by_cases hfix : (fixer.fix text).text = text
    · simp only [if_pos hfix]
      rfl
    · have hwrite := write_memory faults path (fixer.fix text).text mem
      simp only [if_neg hfix]
      cases hdry : r.dryRun with
      | true => rfl
      | false =>
        simp only [writeBack, if_neg Bool.false_ne_true]
        cases hfault : faultFor? faults (.write path) with
        | some e =>
          rw [hfault] at hwrite
          rw [run_bind_of_run hwrite]
          rfl
        | none =>
          rw [hfault] at hwrite
          rw [run_bind_of_run hwrite]
          rfl

/-- A visit fails and leaves memory as it is, or does its script. -/
theorem visit_memory {mem : Memory} (hmem : mem.scripts.Ordered) (r : Report) {path : String}
    (hpath : path ∈ mem.scripts.paths) :
    (∃ e, Fails faults r.dryRun fixer mem path e ∧
      (visit (Memory.store.withFaults faults) fixer r path).run mem =
        (.error e.toRunError, mem)) ∨
    ((∀ e, ¬ Fails faults r.dryRun fixer mem path e) ∧
      ∃ r' mem', (visit (Memory.store.withFaults faults) fixer r path).run mem = (.ok r', mem') ∧
        r'.dryRun = r.dryRun ∧ mem.Rewrites r.dryRun fixer [path] mem') := by
  obtain ⟨text, htext⟩ : ∃ text, mem.get? path = some text := PathMap.exists_get? hpath
  rw [visit_run faults fixer htext]
  cases hread : faultFor? faults (.read path) with
  | some e => exact .inl ⟨e, .read hread, rfl⟩
  | none =>
    by_cases hfix : (fixer.fix text).text = text
    · refine .inr ⟨fun e hfails => ?_, r.scan, mem, by simp [hfix], rfl,
        Memory.rewrites_kept htext fun _ => hfix⟩
      obtain ⟨-, -, text', hfound, hchanges⟩ := hfails.of_readable hread
      obtain rfl : text = text' := Option.some.inj (htext.symm.trans hfound)
      exact hchanges hfix
    · cases hdry : r.dryRun with
      | true =>
        refine .inr ⟨fun e hfails => ?_, r.scan.change path text (fixer.fix text), mem,
          by simp [hfix], hdry, Memory.rewrites_kept htext nofun⟩
        exact absurd (hfails.of_readable hread).1 (by decide)
      | false =>
        cases hwrite : faultFor? faults (.write path) with
        | some e => exact .inl ⟨e, .write hread htext rfl hfix hwrite, by simp [hfix]⟩
        | none =>
          refine .inr ⟨fun e hfails => ?_, r.scan.change path text (fixer.fix text),
            mem.write path (fixer.fix text).text, by simp [hfix], hdry,
            Memory.rewrites_write hmem hpath htext⟩
          exact absurd (hwrite.symm.trans (hfails.of_readable hread).2.1) (by simp)

end Visits

/-! ## All visits -/

/-- How visits to some paths end, and what is then in memory: all of them went well, or the ones
before the first that failed. -/
inductive Visits (faults : List Fault) (dryRun : Bool) (fixer : Fixer) (mem : Memory)
    (paths : List String) : Except RunError Report → Memory → Prop
  | complete {report : Report} {mem' : Memory}
      (fine : ∀ p ∈ paths, ∀ e, ¬ Fails faults dryRun fixer mem p e)
      (rewrites : mem.Rewrites dryRun fixer paths mem') :
      Visits faults dryRun fixer mem paths (.ok report) mem'
  | stopped {before after : List String} {path : String} {e : StoreError} {error : RunError}
      {mem' : Memory} (split : paths = before ++ path :: after)
      (fine : ∀ p ∈ before, ∀ e, ¬ Fails faults dryRun fixer mem p e)
      (fails : Fails faults dryRun fixer mem path e) (tells : e.Tells error)
      (rewrites : mem.Rewrites dryRun fixer before mem')
      (rest : ∀ p ∈ path :: after, mem'.get? p = mem.get? p) :
      Visits faults dryRun fixer mem paths (.error error) mem'

theorem Fails.congr {faults : List Fault} {dryRun : Bool} {fixer : Fixer} {mem mem' : Memory}
    {path : String} {e : StoreError} (h : mem'.get? path = mem.get? path)
    (hfails : Fails faults dryRun fixer mem' path e) : Fails faults dryRun fixer mem path e := by
  cases hfails with
  | read hfault => exact .read hfault
  | write hread hfound hwet hchanges hfault =>
    rw [h] at hfound
    exact .write hread hfound hwet hchanges hfault

section All

variable {faults : List Fault} {dryRun : Bool} {fixer : Fixer} {mem mem₁ mem' : Memory}
  {path : String} {paths : List String}

/-- One more visit in front.  What the later visits find is what was there at the start, since this
one was to another script. -/
theorem Visits.cons {result : Except RunError Report}
    (hfine : ∀ e, ¬ Fails faults dryRun fixer mem path e)
    (hfirst : mem.Rewrites dryRun fixer [path] mem₁)
    (hdistinct : ∀ q ∈ paths, same path q = false)
    (h : Visits faults dryRun fixer mem₁ paths result mem') :
    Visits faults dryRun fixer mem (path :: paths) result mem' := by
  have hfound := hfirst.get?_later hdistinct
  have hfine_cons : ∀ {done : List String}, (∀ q ∈ done, q ∈ paths) →
      (∀ q ∈ done, ∀ e, ¬ Fails faults dryRun fixer mem₁ q e) →
      ∀ q ∈ path :: done, ∀ e, ¬ Fails faults dryRun fixer mem q e := by
    intro done hdone hall q hq e hfails
    rcases List.mem_cons.mp hq with rfl | hq
    · exact hfine e hfails
    · exact hall q hq e (hfails.congr (hfound q (hdone q hq)).symm)
  cases h with
  | complete fine rewrites =>
    exact .complete (hfine_cons (fun _ hq => hq) fine) (hfirst.cons rewrites hdistinct)
  | @stopped before after p e error mem' split fine fails tells rewrites rest =>
    subst split
    have hbefore : ∀ q ∈ before, q ∈ before ++ p :: after := fun q hq =>
      List.mem_append_left _ hq
    have hafter : ∀ q ∈ p :: after, q ∈ before ++ p :: after := fun q hq =>
      List.mem_append_right _ hq
    refine .stopped (List.cons_append ..).symm (hfine_cons hbefore fine)
      (fails.congr (hfound p (hafter p List.mem_cons_self))) tells
      (hfirst.cons rewrites fun q hq => hdistinct q (hbefore q hq)) ?_
    exact fun q hq => (rest q hq).trans (hfound q (hafter q hq))

variable (faults fixer)

theorem visitAll_memory (hmem : mem.scripts.Ordered) (r : Report)
    (hpaths : ∀ p ∈ paths, p ∈ mem.scripts.paths)
    (hdistinct : paths.Pairwise fun p q => same p q = false) :
    ∃ result mem', (visitAll (Memory.store.withFaults faults) fixer r paths).run mem =
      (result, mem') ∧ Visits faults r.dryRun fixer mem paths result mem' := by
  induction paths generalizing mem r with
  | nil => exact ⟨.ok r, mem, rfl, .complete (fun p hp => absurd hp List.not_mem_nil) (.refl ..)⟩
  | cons path paths ih =>
    obtain ⟨hpath, hrest⟩ := List.forall_mem_cons.mp hpaths
    obtain ⟨hfirst, hlater⟩ := List.pairwise_cons.mp hdistinct
    rcases visit_memory faults fixer hmem r hpath with
      ⟨e, hfails, hvisit⟩ | ⟨hfine, r', mem₁, hvisit, hdry, hrewrites⟩
    · refine ⟨.error e.toRunError, mem, ?_, .stopped (List.nil_append _).symm
        (fun p hp => absurd hp List.not_mem_nil) hfails e.tells_toRunError (.refl ..)
        fun _ _ => rfl⟩
      unfold visitAll
      rw [run_bind_of_run hvisit]
      rfl
    · have hmem₁ : mem₁.scripts.Ordered := by
        rw [PathMap.Ordered, hrewrites.paths]
        exact hmem
      obtain ⟨result, mem', hrun, hvisits⟩ := ih hmem₁ r' (hrewrites.paths ▸ hrest) hlater
      rw [hdry] at hvisits
      refine ⟨result, mem', ?_, hvisits.cons hfine hrewrites hfirst⟩
      unfold visitAll
      rw [run_bind_of_run hvisit]
      exact hrun

end All

/-! ## Whole runs -/

/-- How a run ends, the calls it made of the store, and what is then in memory. -/
inductive Ends (faults : List Fault) (s : RunSettings) (mem : Memory) :
    Except RunError Report → List StoreCall → Memory → Prop
  | unsound {e : StyleError} (style : Fixer.ofStyle s.style = .error e) :
      Ends faults s mem (.error (.style e)) [] mem
  | unlisted {fixer : Fixer} {e : StoreError} {error : RunError}
      (style : Fixer.ofStyle s.style = .ok fixer) (fault : faultFor? faults .discover = some e)
      (tells : e.Tells error) : Ends faults s mem (.error error) [.discover] mem
  | visited {fixer : Fixer} {result : Except RunError Report} {calls : List StoreCall}
      {mem' : Memory} (style : Fixer.ofStyle s.style = .ok fixer)
      (listed : faultFor? faults .discover = none)
      (visits : Visits faults s.dryRun fixer mem (mem.discover s.selection) result mem') :
      Ends faults s mem result calls mem'

theorem StoreError.Tells.carries {e : StoreError} {error : RunError} (h : e.Tells error)
    (hsetup : error.isSetup = true) : e.Carries error := by
  cases h with
  | cause hcarries => exact hcarries
  | words _ => exact absurd hsetup (by simp [RunError.isSetup])

section Settings

variable {faults : List Fault} {s : RunSettings} {mem mem' : Memory}
  {result : Except RunError Report} {calls : List StoreCall}

theorem Ends.rewrites_nothing (h : Ends faults s mem result calls mem') (hdry : s.dryRun = true) :
    mem' = mem := by
  cases h with
  | unsound _ => rfl
  | unlisted _ _ _ => rfl
  | visited _ _ visits =>
    cases visits with
    | complete _ rewrites => exact rewrites.dry hdry
    | stopped _ _ _ _ rewrites _ => exact rewrites.dry hdry

/-- If the settings are told to be at fault, no script was read, or the script that failed was said
to fail for that very reason. -/
theorem Ends.unread (h : Ends faults s mem result calls mem') {error : RunError}
    (hresult : result = .error error) (hsetup : error.isSetup = true) :
    (∀ path, .read path ∉ calls) ∨ ∃ path ∈ mem.discover s.selection, ∃ e,
      Fails faults s.dryRun ⟨s.style.rules⟩ mem path e ∧ e.Carries error := by
  cases h with
  | unsound _ => exact .inl fun _ => List.not_mem_nil
  | unlisted _ _ _ => exact .inl (by simp)
  | visited style _ visits =>
    obtain ⟨-, rfl⟩ := Fixer.ofStyle_eq_ok_iff.mp style
    cases visits with
    | complete _ _ => exact absurd hresult (by simp)
    | @stopped before after path e error' _ split _ fails tells _ _ =>
      obtain rfl : error' = error := Except.error.inj hresult
      have hpath : path ∈ mem.discover s.selection := by
        rw [split]
        exact List.mem_append_right _ List.mem_cons_self
      exact .inr ⟨path, hpath, e, fails, tells.carries hsetup⟩

end Settings

theorem discover_memory (faults : List Fault) (sel : Selection) (mem : Memory) :
    ((Memory.store.withFaults faults).discover sel).run mem =
      (match faultFor? faults .discover with
        | some e => .error e
        | none => .ok (mem.discover sel), mem) := by
  change (orFault faults .discover (Memory.store.discover sel)).run mem = _
  unfold orFault
  cases faultFor? faults .discover with
  | some e => rfl
  | none => rfl

theorem discover_ordered {mem : Memory} (hmem : mem.scripts.Ordered) (sel : Selection) :
    (mem.discover sel).Pairwise fun p q => before p q = true := List.Pairwise.filter _ hmem

/-- What a run gives and leaves is what it does with its calls noted. -/
theorem run_of_logged {store : Store (StateM Memory)} {s : RunSettings} {mem mem' : Memory}
    {result : Except RunError Report} {calls : List StoreCall}
    (h : ((run store.logged s).run []).run mem = ((result, calls), mem')) :
    (run store s).run mem = (result, mem') := by
  rw [← run_logged store s []]
  change (fun out => (out.1.1, out.2)) (((run store.logged s).run []).run mem) = _
  rw [h]

theorem run_ends (faults : List Fault) (s : RunSettings) {mem : Memory}
    (hmem : mem.scripts.Ordered) :
    ∃ result calls mem',
      ((run (Memory.store.withFaults faults).logged s).run []).run mem = ((result, calls), mem') ∧
      Ends faults s mem result calls mem' := by
  have hdiscover := discover_memory faults s.selection mem
  cases hstyle : Fixer.ofStyle s.style with
  | error e => exact ⟨_, _, mem, by rw [run, hstyle]; rfl, .unsound hstyle⟩
  | ok fixer =>
    cases hfault : faultFor? faults .discover with
    | some e =>
      refine ⟨.error e.toRunError, [.discover], mem, ?_, .unlisted hstyle hfault e.tells_toRunError⟩
      have hnoted : ((Memory.store.withFaults faults).logged.discover s.selection []).run mem =
          ((.error e, [.discover]), mem) := by
        change (fun out => ((out.1, [StoreCall.discover]), out.2))
          (((Memory.store.withFaults faults).discover s.selection).run mem) = _
        rw [hdiscover, hfault]
      rw [run, hstyle, StateT.run_bind]
      exact run_bind_of_run hnoted
    | none =>
      rw [hfault] at hdiscover
      have hdistinct : (mem.discover s.selection).Pairwise fun p q => same p q = false :=
        (discover_ordered hmem s.selection).imp not_same_of_before
      obtain ⟨result, mem', hvisitAll, hvisits⟩ := visitAll_memory faults fixer hmem (.start s)
        (fun p hp => (List.mem_filter.mp hp).1) hdistinct
      have hrun : (run (Memory.store.withFaults faults) s).run mem = (result, mem') := by
        rw [run, hstyle, run_bind_of_run hdiscover]
        exact hvisitAll
      obtain ⟨⟨⟨result', calls⟩, mem''⟩, hnoted⟩ : ∃ out,
          ((run (Memory.store.withFaults faults).logged s).run []).run mem = out := ⟨_, rfl⟩
      have heq := hrun.symm.trans (run_of_logged hnoted)
      obtain ⟨rfl, rfl⟩ := Prod.mk.inj heq
      exact ⟨result, calls, mem', hnoted, .visited hstyle hfault hvisits⟩

/-- Runs over scripts in memory, whatever fails, do a first part of the selected scripts in full and
nothing else.  The selected scripts are visited in order; a dry run writes nothing at all; and if a
run ends because its settings are said to be at fault, it has read no script, or reading or writing
a script failed with that very error as its cause. -/
theorem run_prefix_atomic {mem : Memory} (hmem : mem.Built) (faults : List Fault)
    (s : RunSettings) :
    (mem.discover s.selection).Pairwise (fun p q => before p q = true) ∧
    ∃ result calls mem',
      (run (Memory.store.withFaults faults) s).run mem = (result, mem') ∧
      ((run (Memory.store.withFaults faults).logged s).run []).run mem = ((result, calls), mem') ∧
      Ends faults s mem result calls mem' ∧
      (s.dryRun = true → mem' = mem) ∧
      ∀ error, result = .error error → error.isSetup = true →
        (∀ path, .read path ∉ calls) ∨ ∃ path ∈ mem.discover s.selection, ∃ e,
          Fails faults s.dryRun ⟨s.style.rules⟩ mem path e ∧ e.Carries error := by
  obtain ⟨result, calls, mem', hnoted, hends⟩ := run_ends faults s hmem.ordered
  refine ⟨discover_ordered hmem.ordered s.selection, result, calls, mem', run_of_logged hnoted,
    hnoted, hends, hends.rewrites_nothing, ?_⟩
  intro error hresult hsetup
  exact hends.unread hresult hsetup

/-- Three scripts, in no particular order. -/
def threeScripts : Memory :=
  .ofList [("core/b.gd", "int(b.get(\"k\"))"), ("core/c.gd", "int(c.get(\"k\"))"),
    ("core//a.gd", "int(a.get(\"k\"))")]

/-- The second of them cannot be written. -/
def jammed : List Fault := [⟨.write "core/b.gd", .within "saving" (.plain "disk full")⟩]

/-- The first script is fixed, and the second and third stay as they are. -/
theorem run_prefix_atomic_jammed :
    threeScripts.Built ∧
    (∃ result calls mem',
      (run (Memory.store.withFaults jammed) ⟨".", .standard, .standard, false, false⟩).run
        threeScripts = (result, mem') ∧
      Ends jammed ⟨".", .standard, .standard, false, false⟩ threeScripts result calls mem') ∧
    ((run (Memory.store.withFaults jammed) ⟨".", .standard, .standard, false, false⟩).run
        threeScripts).2 =
      .ofList [("core//a.gd", "DictUtils.get_int(a, \"k\", 0)"), ("core/b.gd", "int(b.get(\"k\"))"),
        ("core/c.gd", "int(c.get(\"k\"))")] := by
  obtain ⟨-, result, calls, mem', hrun, -, hends, -⟩ :=
    run_prefix_atomic (.ofList _) jammed ⟨".", .standard, .standard, false, false⟩
  exact ⟨.ofList _, ⟨result, calls, mem', hrun, hends⟩, by decide +kernel⟩

/-- The second of them cannot be read, for a reason that has to do with the settings. -/
def misleading : List Fault := [⟨.read "core/b.gd", .within "loading" (.known (.style .emptyNull))⟩]

/-- A dry run ends with a fault of the settings although a script was read; and that script, in
front of the one that failed, keeps its old text. -/
theorem setup_error_after_reading :
    threeScripts.discover .standard = ["core//a.gd", "core/b.gd", "core/c.gd"] ∧
    (((run (Memory.store.withFaults misleading).logged ⟨".", .standard, .standard, true, false⟩).run
        []).run threeScripts).1 =
      (.error (.style .emptyNull), [.discover, .read "core//a.gd", .read "core/b.gd"]) ∧
    ((run (Memory.store.withFaults misleading) ⟨".", .standard, .standard, true, false⟩).run
        threeScripts).2 = threeScripts ∧
    (RunError.style .emptyNull).isSetup = true ∧
    threeScripts.get? "core//a.gd" = some "int(a.get(\"k\"))" ∧
    ((Fixer.mk Style.standard.rules).fix "int(a.get(\"k\"))").text ≠ "int(a.get(\"k\"))" := by
  decide +kernel

end CastGuard
