/-
# `CastGuard.Proofs.Glob.Search` — everything that a search finds

A walk that meets no obstacle succeeds, and its results are known exactly (`Yields`).  The obstacles
are paths that are too long and links, so the statements here are about a path that reaches
everything below some place (`Reaches`): whatever stands below the place is found by its names
behind the path.

Below such a path, two stars find all names at any depth (`yields_below`), and names without
wildcards lead to what they say (`yields_names`).
-/
import CastGuard.Proofs.Disk.Below
import CastGuard.Proofs.Glob.Pattern
import CastGuard.Proofs.Glob.Walk
import Mathlib.Data.List.Nodup

namespace CastGuard

open Text Glob

namespace Disk

/-! ## Searches that succeed -/

section Yields

variable {d : Disk} {α β : Type}

/-- A search asks only, succeeds, and finds exactly what has a property. -/
def Yields (d : Disk) (x : Search (StateM Disk) (List β)) (Q : β → Prop) : Prop :=
  ∃ ys, d.Answers x.run (.ok ys) ∧ ∀ y, y ∈ ys ↔ Q y

variable {Q Q' : β → Prop}

theorem Yields.congr {x : Search (StateM Disk) (List β)} (h : d.Yields x Q) (hQ : ∀ y, Q y ↔ Q' y) :
    d.Yields x Q' := by
  obtain ⟨ys, hys, hmem⟩ := h
  exact ⟨ys, hys, fun y => (hmem y).trans (hQ y)⟩

theorem yields_pure {ys : List β} (h : ∀ y, y ∈ ys ↔ Q y) : d.Yields (pure ys) Q :=
  ⟨ys, rfl, h⟩

theorem answers_bind {x : Search (StateM Disk) α} {f : α → Search (StateM Disk) β} {a : α}
    {b : Except Unlisted β} (hx : d.Answers x.run (.ok a)) (hf : d.Answers (f a).run b) :
    d.Answers (x >>= f).run b := by
  rw [ExceptT.run_bind]
  exact hx.bind hf

theorem Yields.after {x : Search (StateM Disk) α} {f : α → Search (StateM Disk) (List β)} {a : α}
    (h : d.Yields (f a) Q) (hx : d.Answers x.run (.ok a)) : d.Yields (x >>= f) Q := by
  obtain ⟨ys, hys, hmem⟩ := h
  exact ⟨ys, answers_bind hx hys, hmem⟩

theorem Yields.append {x y : Search (StateM Disk) (List β)} (hx : d.Yields x Q)
    (hy : d.Yields y Q') :
    d.Yields (do return (← x) ++ (← y)) fun b => Q b ∨ Q' b := by
  obtain ⟨xs, hxs, hmemx⟩ := hx
  obtain ⟨ys, hys, hmemy⟩ := hy
  refine ⟨xs ++ ys, answers_bind hxs (answers_bind hys rfl), fun b => ?_⟩
  rw [List.mem_append, hmemx, hmemy]

theorem yields_gather {f : α → Search (StateM Disk) (List β)} {xs : List α} {R : α → β → Prop}
    (hf : ∀ x ∈ xs, d.Yields (f x) (R x)) : d.Yields (gather f xs) fun y => ∃ x ∈ xs, R x y := by
  induction xs with
  | nil => exact yields_pure (by simp)
  | cons x xs ih =>
    obtain ⟨hx, hxs⟩ := List.forall_mem_cons.mp hf
    exact (hx.append (ih hxs)).congr fun y => by simp

end Yields

/-! ## What is listed -/

section Listing

variable {d : Disk}

def Distinct (d : Disk) : Prop := (d.entries.map Prod.fst).Nodup

theorem get?_of_mem (hdistinct : d.Distinct) {p : Place} {e : Entry} (hp : p ≠ [])
    (h : (p, e) ∈ d.entries) : d.get? p = some e := by
  obtain ⟨f, hget⟩ := exists_get?_of_mem h
  have hmem := get?_cons_mem hget hp
  have heq := List.inj_on_of_nodup_map hdistinct h hmem rfl
  rw [hget, (Prod.mk.inj heq).2]

theorem mem_listing_iff (hdistinct : d.Distinct) {p : Place} {e : Listed} :
    e ∈ d.listing p ↔ ∃ f, d.get? (p ++ [.text e.name]) = some f ∧ e.kind = f.kind := by
  simp only [listing, List.mem_filterMap, Option.ite_none_right_eq_some, Option.map_eq_some_iff,
    Option.bind_eq_some_iff]
  constructor
  · rintro ⟨⟨q, f⟩, hmem, rfl, s, ⟨name, hlast, htext⟩, rfl⟩
    obtain ⟨front, rfl⟩ := List.getLast?_eq_some_iff.mp hlast
    cases name with
    | bytes bs => exact absurd htext (by simp [Raw.text?])
    | text t =>
      obtain rfl : t = s := Option.some.inj htext
      refine ⟨f, ?_, rfl⟩
      rw [List.dropLast_concat]
      exact get?_of_mem hdistinct (by simp) hmem
  · rintro ⟨f, hget, hkind⟩
    refine ⟨_, get?_cons_mem hget (by simp), by simp, e.name, ⟨.text e.name, by simp, rfl⟩, ?_⟩
    rw [← hkind]

end Listing

/-! ## Paths that reach what is below a place -/

/-- Everything below a place is found by its names behind a path, and nothing there is a link. -/
structure Reaches (d : Disk) (cwd : Place) (path : String) (place : Place) : Prop where
  target : ∀ names : List String, (∀ n ∈ names, Component.IsPart n.toList) → ∀ q e,
    d.target cwd (names.foldl step path) = .ok (q, e) ↔
      q = place ++ names.map .text ∧ d.get? q = some e
  present : ∀ names : List String, names ≠ [] → (∀ n ∈ names, Component.IsPart n.toList) →
    (d.isPresent cwd (names.foldl step path) = true ↔
      ∃ e, d.get? (place ++ names.map .text) = some e)
  linkless : ∀ q t, place <+: q → d.get? q ≠ some (.link t)

section Reaches

variable {d : Disk} {cwd place : Place} {path : String}

theorem Reaches.step (h : d.Reaches cwd path place) {name : String}
    (hname : Component.IsPart name.toList) :
    d.Reaches cwd (Glob.step path name) (place ++ [.text name]) := by
  have hall : ∀ {names : List String}, (∀ n ∈ names, Component.IsPart n.toList) →
      ∀ n ∈ name :: names, Component.IsPart n.toList := fun hnames =>
    List.forall_mem_cons.mpr ⟨hname, hnames⟩
  refine ⟨fun names hnames q e => ?_, fun names _ hnames => ?_, fun q t hq => ?_⟩
  · simpa using h.target (name :: names) (hall hnames) q e
  · simpa using h.present (name :: names) (by simp) (hall hnames)
  · exact h.linkless q t ((List.prefix_append _ _).trans hq)

theorem Reaches.target_self (h : d.Reaches cwd path place) {q : Place} {e : Entry} :
    d.target cwd path = .ok (q, e) ↔ q = place ∧ d.get? q = some e := by
  simpa using h.target [] (by simp) q e

theorem Reaches.isDir_iff (h : d.Reaches cwd path place) :
    d.isDir cwd path = true ↔ d.HasDir place := by
  unfold isDir HasDir
  constructor
  · intro hdir
    split at hdir
    · next q mode htarget =>
      obtain ⟨rfl, hget⟩ := h.target_self.mp htarget
      exact ⟨mode, hget⟩
    · exact absurd hdir (by simp)
  · rintro ⟨mode, hget⟩
    rw [h.target_self.mpr ⟨rfl, hget⟩]

theorem Reaches.isDir_eq (h : d.Reaches cwd path place) {e : Entry} (hget : d.get? place = some e) :
    d.isDir cwd path = decide (e.kind = .directory) := by
  rw [Bool.eq_iff_iff, h.isDir_iff, decide_eq_true_iff, kind_eq_directory_iff, HasDir, hget]
  simp

theorem Reaches.isFile_iff (h : d.Reaches cwd path place) {names : List String}
    (hnames : ∀ n ∈ names, Component.IsPart n.toList) :
    d.isFile cwd (names.foldl Glob.step path) = true ↔
      ∃ c mode, d.get? (place ++ names.map .text) = some (.file c mode) := by
  unfold isFile
  constructor
  · intro hfile
    split at hfile
    · next q c mode htarget =>
      obtain ⟨rfl, hget⟩ := (h.target names hnames _ _).mp htarget
      exact ⟨c, mode, hget⟩
    · exact absurd hfile (by simp)
  · rintro ⟨c, mode, hget⟩
    rw [(h.target names hnames _ _).mpr ⟨rfl, hget⟩]

theorem answers_nodeAt (path : String) :
    d.Answers (nodeAt (fileSystem cwd) path).run (.ok ⟨path, d.isDir cwd path⟩) := rfl

theorem answers_namesIn_dir {mode : Mode} (h : d.target cwd path = .ok (place, .dir mode)) :
    d.Answers (namesIn (fileSystem cwd) ⟨path, d.isDir cwd path⟩).run
      (.ok (sortListed (d.listing place))) := by
  have hdir : d.isDir cwd path = true := by simp only [isDir, h]
  have hlist : d.list cwd path = .ok (d.listing place) := by simp only [list, h]
  unfold namesIn
  rw [hdir, if_pos rfl]
  refine answers_bind (a := d.list cwd path) rfl ?_
  rw [hlist]
  rfl

theorem Reaches.answers_namesIn (h : d.Reaches cwd path place) (hd : d.Sound)
    (hdistinct : d.Distinct) :
    ∃ es, d.Answers (namesIn (fileSystem cwd) ⟨path, d.isDir cwd path⟩).run (.ok es) ∧
      ∀ e, e ∈ es ↔ ∃ f, d.get? (place ++ [.text e.name]) = some f ∧ e.kind = f.kind := by
  by_cases hdir : d.HasDir place
  · obtain ⟨mode, hget⟩ := hdir
    refine ⟨_, answers_namesIn_dir (h.target_self.mpr ⟨rfl, hget⟩), fun e => ?_⟩
    rw [mem_sortListed, mem_listing_iff hdistinct]
  · have hnode : d.isDir cwd path = false := by rwa [← Bool.not_eq_true, h.isDir_iff]
    refine ⟨[], by rw [hnode]; rfl, fun e => iff_of_false List.not_mem_nil ?_⟩
    rintro ⟨f, hget, -⟩
    exact hdir (hd.parent_dir hget)

theorem Reaches.answers_nodeOf (h : d.Reaches cwd path place) {e : Listed} {f : Entry}
    (hname : Component.IsPart e.name.toList) (hget : d.get? (place ++ [.text e.name]) = some f)
    (hkind : e.kind = f.kind) :
    d.Answers (nodeOf (fileSystem cwd) path e).run
      (.ok ⟨Glob.step path e.name, d.isDir cwd (Glob.step path e.name)⟩) := by
  have hdir := (h.step hname).isDir_eq hget
  unfold nodeOf
  rw [hkind]
  cases f with
  | dir mode => rw [hdir]; rfl
  | file c mode => rw [hdir]; rfl
  | link t => rfl

theorem isPart_of_get? (hd : d.Sound) {names : List String} {e : Entry}
    (hget : d.get? (place ++ names.map .text) = some e) :
    ∀ n ∈ names, Component.IsPart n.toList := fun n hn =>
  (hd.named _ _ hget (.text n) (List.mem_append_right _ (List.mem_map_of_mem hn))).isPart

theorem Reaches.yields_below (h : d.Reaches cwd path place) (hd : d.Sound) (hdistinct : d.Distinct)
    (wanted : String → Bool) (depth : Nat) :
    d.Yields (below (fileSystem cwd) wanted (fun node => walk (fileSystem cwd) [] node) depth
        ⟨path, d.isDir cwd path⟩)
      fun y => ∃ names last, names.length < depth ∧ wanted last = true ∧
        (∃ e, d.get? (place ++ (names ++ [last]).map .text) = some e) ∧
        y = (names ++ [last]).foldl Glob.step path := by
  induction depth generalizing path place with
  | zero => exact yields_pure (by simp)
  | succ depth ih =>
    obtain ⟨es, hes, hmem⟩ := h.answers_namesIn hd hdistinct
    unfold below
    refine Yields.after ((yields_gather
      (R := fun e y =>
        (wanted e.name = true ∧ y = Glob.step path e.name) ∨
        ∃ names last, names.length < depth ∧ wanted last = true ∧
          (∃ f, d.get? (place ++ [.text e.name] ++ (names ++ [last]).map .text) = some f) ∧
          y = (names ++ [last]).foldl Glob.step (Glob.step path e.name))
      fun e he => ?_).congr fun y => ?_) hes
    · obtain ⟨f, hget, hkind⟩ := (hmem e).mp he
      have hsingle : d.get? (place ++ [e.name].map .text) = some f := hget
      have hname := isPart_of_get? hd hsingle e.name List.mem_cons_self
      have hdeeper := ih (h.step hname)
      refine Yields.after ?_ (h.answers_nodeOf hname hget hkind)
      dsimp only
      split
      · next hwanted => exact Yields.append (yields_pure (by simp [hwanted])) hdeeper
      · next hwanted => exact Yields.append (yields_pure (by simp [hwanted])) hdeeper
    · constructor
      · rintro ⟨e, he, ⟨hwanted, rfl⟩ | ⟨names, last, hlength, hwanted, ⟨f, hget⟩, rfl⟩⟩
        · obtain ⟨f, hget, -⟩ := (hmem e).mp he
          exact ⟨[], e.name, by simp, hwanted, ⟨f, hget⟩, rfl⟩
        · refine ⟨e.name :: names, last, by simpa using hlength, hwanted, ⟨f, ?_⟩, rfl⟩
          simpa using hget
      · rintro ⟨names, last, hlength, hwanted, ⟨f, hget⟩, rfl⟩
        cases names with
        | nil => exact ⟨⟨last, f.kind⟩, (hmem _).mpr ⟨f, hget, rfl⟩, .inl ⟨hwanted, rfl⟩⟩
        | cons name names =>
          have hget' : d.get? (place ++ [.text name] ++ (names ++ [last]).map .text) = some f := by
            simpa using hget
          obtain ⟨mode, hdir⟩ := hd.hasDir_of_append hget' (by simp)
          refine ⟨⟨name, .directory⟩, (hmem _).mpr ⟨.dir mode, hdir, rfl⟩, .inr ?_⟩
          exact ⟨names, last, by simpa using hlength, hwanted, ⟨f, hget'⟩, rfl⟩

/-- Names in a row, and then scripts at any depth. -/
theorem Reaches.yields_names (h : d.Reaches cwd path place) (hd : d.Sound) (hdistinct : d.Distinct)
    {ns : List String} (hns : ∀ n ∈ ns, Component.IsPart n.toList) :
    d.Yields (walk (fileSystem cwd) (ns.map .literal ++ [.descend, scriptSegment])
        ⟨path, d.isDir cwd path⟩)
      fun y => ∃ names last, names.length < maxDepth ∧ ['.', 'g', 'd'] <:+ last.toList ∧
        (∃ e, d.get? (place ++ (ns ++ (names ++ [last])).map .text) = some e) ∧
        y = (ns ++ (names ++ [last])).foldl Glob.step path := by
  induction ns generalizing path place with
  | nil =>
    have hall := h.yields_below hd hdistinct scriptSegment.matchesName maxDepth
    have hwanted : ∀ last : String, scriptSegment.matchesName last = true ↔
        ['.', 'g', 'd'] <:+ last.toList := fun last => matchesName_ending
    simp only [hwanted] at hall
    rw [List.map_nil, List.nil_append, walk]
    · exact hall
    · simp [scriptSegment]
  | cons n ns ih =>
    obtain ⟨hn, hns⟩ := List.forall_mem_cons.mp hns
    have hdots : ¬ (n = "." ∨ n = "..") := by
      rintro (rfl | rfl)
      · exact hn.notHere rfl
      · exact hn.notUp rfl
    rw [List.map_cons, List.cons_append, walk]
    simp only [hdots, if_false]
    refine Yields.after (a := d.isPresent cwd (Glob.step path n)) ?_ rfl
    have hpresent := h.present [n] (by simp) (by simpa using hn)
    by_cases hthere : d.isPresent cwd (Glob.step path n) = true
    · rw [if_pos hthere]
      refine ((ih (h.step hn) hns).congr fun y => ?_).after (answers_nodeAt _)
      simp
    · rw [if_neg hthere]
      -- what is not there has nothing below it
      refine yields_pure fun y => iff_of_false List.not_mem_nil ?_
      rintro ⟨names, last, -, -, ⟨e, hget⟩, -⟩
      have hbehind :
        d.get? (place ++ [.text n] ++ (ns ++ (names ++ [last])).map .text) = some e := by
        simpa using hget
      obtain ⟨mode, hdir⟩ := hd.hasDir_of_append hbehind (by simp)
      exact hthere (hpresent.mpr ⟨.dir mode, hdir⟩)

end Reaches

/-! ## The way along escaped text -/

/-- Parts behind a path that lead from directory to directory. -/
inductive Passes (d : Disk) (cwd : Place) : String → List String → Prop
  | done {path : String} : Passes d cwd path []
  | up {path : String} {parts : List String} (here : d.isDir cwd path = true)
      (next : Passes d cwd (step path "..") parts) : Passes d cwd path (".." :: parts)
  | into {path part : String} {parts : List String} {place : Place} {mode : Mode} {f : Entry}
      (proper : Component.IsPart part.toList) (here : d.target cwd path = .ok (place, .dir mode))
      (there : d.get? (place ++ [.text part]) = some f) (kind : f.kind ≠ .other)
      (present : d.isPresent cwd (step path part) = true)
      (isDir : d.isDir cwd (step path part) = true) (next : Passes d cwd (step path part) parts) :
      Passes d cwd path (part :: parts)

section Passes

variable {d : Disk} {cwd : Place} {Q : String → Prop} {rest : List Segment}

/-- An escaped name is found by listing its directory. -/
theorem yields_escaped (hdistinct : d.Distinct) {path part : String} {place : Place} {mode : Mode}
    {f : Entry} (hspecial : ∃ c ∈ part.toList, c ∈ ['?', '*', '[', ']'])
    (hpath : d.target cwd path = .ok (place, .dir mode))
    (hget : d.get? (place ++ [.text part]) = some f) (hkind : f.kind ≠ .other)
    (hdir : d.isDir cwd (step path part) = true)
    (h : d.Yields (walk (fileSystem cwd) rest ⟨step path part, d.isDir cwd (step path part)⟩) Q) :
    d.Yields (walk (fileSystem cwd) (.wildcard (part.toList.map exactToken) :: rest)
      ⟨path, d.isDir cwd path⟩) Q := by
  rw [walk]
  refine Yields.after ?_ (answers_namesIn_dir hpath)
  simp only [dotNames_exact hspecial, ite_self]
  have hdots : d.Yields (pure ([] : List String)) fun _ => False := yields_pure (by simp)
  refine (hdots.append (yields_gather (R := fun _ => Q) fun e he => ?_)).congr fun y => ?_
  · obtain ⟨hmem, hfits⟩ := List.mem_filter.mp he
    have hname : e.name = part := String.toList_inj.mp (matchesName_exact.mp hfits)
    rw [mem_sortListed, mem_listing_iff hdistinct, hname, hget] at hmem
    obtain ⟨_, heq, hlisted⟩ := hmem
    obtain rfl := Option.some.inj heq
    have hnode : d.Answers (nodeOf (fileSystem cwd) path e).run
        (.ok ⟨step path part, d.isDir cwd (step path part)⟩) := by
      unfold nodeOf
      rw [hlisted, hname]
      cases f with
      | dir mode => rw [hdir]; rfl
      | file c mode => exact absurd rfl hkind
      | link t => rfl
    exact h.after hnode
  · refine ⟨fun hy => ?_, fun hy => .inr ⟨⟨part, f.kind⟩, List.mem_filter.mpr ⟨?_, ?_⟩, hy⟩⟩
    · obtain ⟨_, -, hy⟩ := hy.resolve_left id
      exact hy
    · exact mem_sortListed.mpr ((mem_listing_iff hdistinct).mpr ⟨f, hget, rfl⟩)
    · exact matchesName_exact.mpr rfl

theorem yields_literal {path part : String} (hpart : part ≠ "." ∧ part ≠ "..")
    (hthere : d.isPresent cwd (step path part) = true)
    (h : d.Yields (walk (fileSystem cwd) rest ⟨step path part, d.isDir cwd (step path part)⟩) Q) :
    d.Yields (walk (fileSystem cwd) (.literal part :: rest) ⟨path, d.isDir cwd path⟩) Q := by
  rw [walk]
  simp only [hpart, or_self, if_false]
  refine Yields.after (a := d.isPresent cwd (step path part)) ?_ rfl
  rw [if_pos hthere]
  exact h.after (answers_nodeAt _)

theorem Passes.yields {path : String} {parts : List String} (hparts : Passes d cwd path parts)
    (hdistinct : d.Distinct)
    (h : d.Yields (walk (fileSystem cwd) rest
      ⟨parts.foldl step path, d.isDir cwd (parts.foldl step path)⟩) Q) :
    d.Yields (walk (fileSystem cwd) ((parts.map fun p => Segment.exact p.toList) ++ rest)
      ⟨path, d.isDir cwd path⟩) Q := by
  induction hparts with
  | done => exact h
  | @up path parts here next ih =>
    have hup : Segment.exact "..".toList = .literal ".." := by decide
    rw [List.map_cons, List.cons_append, hup, walk, here]
    simp only [or_true, if_true]
    exact (ih h).after (answers_nodeAt _)
  | @into path part parts place mode f proper here there kind present isDir next ih =>
    rw [List.map_cons, List.cons_append]
    rcases Segment.exact_cases part.toList with heq | ⟨heq, hspecial⟩
    · rw [heq, String.ofList_toList]
      exact yields_literal ⟨fun h => proper.notHere (by rw [h]; decide),
        fun h => proper.notUp (by rw [h]; decide)⟩ present (ih h)
    · rw [heq]
      exact yields_escaped hdistinct hspecial here there kind isDir (ih h)

end Passes

end Disk

end CastGuard
