/-
# `CastGuard.Proofs.Glob.Walk` — walks ask and do not change, and find only what matches

A walk is a program that asks a disk questions.  Two things are said of every walk at once, by a
rule for each way to put searches together: it leaves the disk as it is, and what it finds, if no
directory stops it, has some property (`Finds`).

The property is that a found path matches the pattern (`Matches`): it is put together from the
pattern's literal components, from names that stand in directories where the pattern has wildcards,
and from the dots that a wildcard may ask for.  This says nothing about what is on the disk.
-/
import CastGuard.Glob.Walk
import CastGuard.Proofs.Disk.Sound
import CastGuard.Store.Tree

namespace CastGuard

open Text Glob

/-! ## Questions -/

namespace Disk

/-- The answer of a program that leaves the disk as it is. -/
def Answers {α : Type} (d : Disk) (x : StateM Disk α) (a : α) : Prop := x.run d = (a, d)

section Answers

variable {d : Disk} {α β : Type}

theorem answers_pure (a : α) : d.Answers (pure a) a := rfl

theorem answers_ask (f : Disk → α) : d.Answers (ask f) (f d) := rfl

theorem Answers.bind {x : StateM Disk α} {f : α → StateM Disk β} {a : α} {b : β}
    (hx : d.Answers x a) (hf : d.Answers (f a) b) : d.Answers (x >>= f) b := by
  rw [Answers, StateT.run_bind, show x.run d = (a, d) from hx]
  exact hf

theorem answers_gather {f : α → StateM Disk (List β)} {g : α → List β} {xs : List α}
    (hf : ∀ x ∈ xs, d.Answers (f x) (g x)) : d.Answers (gather f xs) (xs.flatMap g) := by
  induction xs with
  | nil => exact answers_pure []
  | cons x xs ih =>
    obtain ⟨hx, hxs⟩ := List.forall_mem_cons.mp hf
    rw [List.flatMap_cons]
    exact hx.bind ((ih hxs).bind (answers_pure (g x ++ xs.flatMap g)))

/-- A search asks only, and what it finds has a property. -/
def Finds (d : Disk) (x : Search (StateM Disk) α) (P : α → Prop) : Prop :=
  ∃ r, d.Answers x.run r ∧ ∀ a, r = .ok a → P a

variable {P : α → Prop} {Q : β → Prop}

theorem Finds.mono {P' : α → Prop} {x : Search (StateM Disk) α} (h : d.Finds x P)
    (hP : ∀ a, P a → P' a) : d.Finds x P' := by
  obtain ⟨r, hr, hok⟩ := h
  exact ⟨r, hr, fun a ha => hP a (hok a ha)⟩

theorem finds_pure {a : α} (h : P a) : d.Finds (pure a) P :=
  ⟨.ok a, rfl, fun _ heq => Except.ok.inj heq ▸ h⟩

theorem finds_throw (e : Unlisted) : d.Finds (throw e) P :=
  ⟨.error e, rfl, fun _ heq => absurd heq (by simp)⟩

theorem finds_ask {f : Disk → α} (h : P (f d)) : d.Finds (liftM (ask f)) P :=
  ⟨.ok (f d), rfl, fun _ heq => Except.ok.inj heq ▸ h⟩

theorem Finds.bind {x : Search (StateM Disk) α} {f : α → Search (StateM Disk) β}
    (hx : d.Finds x P) (hf : ∀ a, P a → d.Finds (f a) Q) : d.Finds (x >>= f) Q := by
  obtain ⟨r, hr, hok⟩ := hx
  rw [Finds, ExceptT.run_bind]
  cases r with
  | error e => exact ⟨.error e, hr.bind (answers_pure _), fun _ heq => absurd heq (by simp)⟩
  | ok a =>
    obtain ⟨r', hr', hok'⟩ := hf a (hok a rfl)
    exact ⟨r', hr.bind hr', hok'⟩

theorem finds_gather {f : α → Search (StateM Disk) (List β)} {xs : List α}
    (hf : ∀ x ∈ xs, d.Finds (f x) fun ys => ∀ y ∈ ys, Q y) :
    d.Finds (gather f xs) fun ys => ∀ y ∈ ys, Q y := by
  induction xs with
  | nil => exact finds_pure (by simp)
  | cons x xs ih =>
    obtain ⟨hx, hxs⟩ := List.forall_mem_cons.mp hf
    refine hx.bind fun found hfound => (ih hxs).bind fun more hmore => finds_pure ?_
    intro y hy
    rcases List.mem_append.mp hy with hy | hy
    · exact hfound y hy
    · exact hmore y hy

end Answers

/-! ## Names in directories -/

section Names

variable {d : Disk} (cwd : Place)

theorem isName_of_mem_listing (hd : d.Sound) {p : Place} {e : Listed} (h : e ∈ d.listing p) :
    (Raw.text e.name).IsName := by
  simp only [listing, List.mem_filterMap, Option.ite_none_right_eq_some, Option.map_eq_some_iff,
    Option.bind_eq_some_iff] at h
  obtain ⟨⟨q, entry⟩, hmem, -, s, ⟨name, hlast, htext⟩, rfl⟩ := h
  obtain ⟨f, hget⟩ := exists_get?_of_mem hmem
  have hname := hd.named q f hget name (List.mem_of_getLast? hlast)
  cases name with
  | text t => exact Option.some.inj htext ▸ hname
  | bytes bs => exact absurd htext (by simp [Raw.text?])

theorem mem_listing_of_list {path : String} {es : List Listed} (h : d.list cwd path = .ok es) :
    ∃ p, es = d.listing p := by
  unfold list at h
  split at h
  · exact absurd h (by simp)
  · exact ⟨_, (Except.ok.inj h).symm⟩
  · exact absurd h (by simp)

theorem mem_insertListed {e f : Listed} {es : List Listed} :
    f ∈ insertListed e es ↔ f = e ∨ f ∈ es := by
  induction es with
  | nil => simp [insertListed]
  | cons g es ih =>
    unfold insertListed
    split
    · rw [List.mem_cons, ih, List.mem_cons, or_left_comm]
    · rw [List.mem_cons]

theorem mem_sortListed {f : Listed} {es : List Listed} : f ∈ sortListed es ↔ f ∈ es := by
  induction es with
  | nil => simp [sortListed]
  | cons e es ih =>
    rw [sortListed, List.foldr_cons, mem_insertListed, ← sortListed, ih, List.mem_cons]

theorem finds_namesIn (hd : d.Sound) (dir : Node) :
    d.Finds (namesIn (fileSystem cwd) dir) fun es => ∀ e ∈ es, (Raw.text e.name).IsName := by
  unfold namesIn
  split
  · refine (finds_ask (f := (·.list cwd dir.path)) rfl).bind fun r hr => ?_
    cases r with
    | error e => exact finds_throw _
    | ok entries =>
      refine finds_pure fun e he => ?_
      obtain ⟨p, rfl⟩ := mem_listing_of_list cwd hr
      exact isName_of_mem_listing hd (mem_sortListed.mp he)
  · exact finds_pure (by simp)

theorem finds_nodeAt (path : String) :
    d.Finds (nodeAt (fileSystem cwd) path) fun node => node.path = path :=
  (finds_ask (f := (·.isDir cwd path)) rfl).bind fun _ _ => finds_pure rfl

theorem finds_nodeOf (dir : String) (e : Listed) :
    d.Finds (nodeOf (fileSystem cwd) dir e) fun node => node.path = step dir e.name := by
  unfold nodeOf
  split
  · exact finds_pure rfl
  · exact finds_nodeAt cwd _
  · exact finds_pure rfl

end Names

end Disk

/-! ## Paths that match -/

namespace Glob

/-- The paths that match some components, seen from a path: names stand for wildcards. -/
inductive Matches : List Segment → String → String → Prop
  | here {p : String} : Matches [] p p
  | literal {name : String} {rest : List Segment} {p q : String}
      (next : Matches rest (step p name) q) : Matches (.literal name :: rest) p q
  | dots {ts : List Token} {name : String} {rest : List Segment} {p q : String}
      (asked : name ∈ dotNames ts) (next : Matches rest (ScriptPath.join p name) q) :
      Matches (.wildcard ts :: rest) p q
  | name {ts : List Token} {name : String} {rest : List Segment} {p q : String}
      (proper : (Raw.text name).IsName) (fits : matchesName ts name.toList = true)
      (next : Matches rest (step p name) q) : Matches (.wildcard ts :: rest) p q
  | deeper {name : String} {rest : List Segment} {p q : String} (proper : (Raw.text name).IsName)
      (next : Matches (.descend :: rest) (step p name) q) : Matches (.descend :: rest) p q
  | found {name : String} {segment : Segment} {rest : List Segment} {p q : String}
      (proper : (Raw.text name).IsName) (fits : segment.matchesName name = true)
      (next : Matches rest (step p name) q) : Matches (.descend :: segment :: rest) p q
  | once {rest : List Segment} {p q : String} (next : Matches (.descend :: rest) p q) :
      Matches (.descend :: .descend :: rest) p q
  | last {name : String} {p : String} (proper : (Raw.text name).IsName) :
      Matches [.descend] p (step p name)

end Glob

namespace Disk

section Walk

variable {d : Disk} (cwd : Place)

theorem finds_below (hd : d.Sound) {wanted : String → Bool}
    {next : Node → Search (StateM Disk) (List String)} {rest : List Segment}
    (hnext : ∀ p name node, (Raw.text name).IsName → wanted name = true → node.path = step p name →
      d.Finds (next node) fun ps => ∀ q ∈ ps, Matches (.descend :: rest) p q)
    (depth : Nat) (dir : Node) :
    d.Finds (below (fileSystem cwd) wanted next depth dir)
      fun ps => ∀ q ∈ ps, Matches (.descend :: rest) dir.path q := by
  induction depth generalizing dir with
  | zero => exact finds_pure (by simp)
  | succ depth ih =>
    unfold below
    refine (finds_namesIn cwd hd dir).bind fun es hes => finds_gather fun e he => ?_
    refine (finds_nodeOf cwd dir.path e).bind fun node hnode => ?_
    have hrest : ∀ here, (∀ q ∈ here, Matches (.descend :: rest) dir.path q) →
        d.Finds (below (fileSystem cwd) wanted next depth node >>= fun deeper =>
          pure (here ++ deeper))
          fun ps => ∀ q ∈ ps, Matches (.descend :: rest) dir.path q := by
      intro here hhere
      refine (ih node).bind fun deeper hdeeper => finds_pure ?_
      intro q hq
      rcases List.mem_append.mp hq with hq | hq
      · exact hhere q hq
      · exact .deeper (hes e he) (hnode ▸ hdeeper q hq)
    dsimp only
    split
    · next hwanted => exact (hnext _ _ _ (hes e he) hwanted hnode).bind hrest
    · exact hrest [] (by simp)

theorem finds_literal {rest : List Segment} (dir : String) (name : String)
    (ih : ∀ node, d.Finds (walk (fileSystem cwd) rest node) fun ps =>
      ∀ q ∈ ps, Matches rest node.path q)
    (there : Bool) :
    d.Finds (if there then do walk (fileSystem cwd) rest (← nodeAt (fileSystem cwd) (step dir name))
        else pure []) fun ps => ∀ q ∈ ps, Matches (.literal name :: rest) dir q := by
  split
  · refine (finds_nodeAt cwd _).bind fun node hnode => (ih node).mono fun ps hps q hq => ?_
    exact .literal (hnode ▸ hps q hq)
  · exact finds_pure (by simp)

theorem finds_walk (hd : d.Sound) (segments : List Segment) (node : Node) :
    d.Finds (walk (fileSystem cwd) segments node) fun ps =>
      ∀ q ∈ ps, Matches segments node.path q := by
  fun_induction walk (fileSystem cwd) segments node with
  | case1 node => exact finds_pure (by simpa using .here)
  | case2 name rest dir path go hdots ih => exact finds_literal cwd dir.path name ih dir.isDir
  | case3 name rest dir path go hdots ih =>
    refine (finds_ask (P := fun _ => True) trivial).bind fun there _ => ?_
    exact finds_literal cwd dir.path name ih there
  | case4 ts rest dir ih =>
    refine (finds_namesIn cwd hd dir).bind fun es hes => ?_
    have hdots : ∀ names, (∀ name ∈ names, name ∈ dotNames ts) →
        d.Finds (gather (fun name => do
            walk (fileSystem cwd) rest
              (← nodeAt (fileSystem cwd) (ScriptPath.join dir.path name))) names)
          fun ps => ∀ q ∈ ps, Matches (.wildcard ts :: rest) dir.path q := by
      intro names hnames
      refine finds_gather fun name hname => (finds_nodeAt cwd _).bind fun node hnode => ?_
      exact (ih node).mono fun ps hps q hq => .dots (hnames name hname) (hnode ▸ hps q hq)
    have hfound : d.Finds (gather (fun e => do
            walk (fileSystem cwd) rest (← nodeOf (fileSystem cwd) dir.path e))
          (es.filter fun e => Glob.matchesName ts e.name.toList))
        fun ps => ∀ q ∈ ps, Matches (.wildcard ts :: rest) dir.path q := by
      refine finds_gather fun e he => (finds_nodeOf cwd dir.path e).bind fun node hnode => ?_
      obtain ⟨hmem, hfits⟩ := List.mem_filter.mp he
      exact (ih node).mono fun ps hps q hq => .name (hes e hmem) hfits (hnode ▸ hps q hq)
    refine (hdots _ ?_).bind fun dots hdots => hfound.bind fun found hfound => finds_pure ?_
    · intro name hname
      split at hname
      · exact hname
      · exact absurd hname List.not_mem_nil
    · intro q hq
      rcases List.mem_append.mp hq with hq | hq
      · exact hdots q hq
      · exact hfound q hq
  | case5 rest dir ih => exact ih.mono fun ps hps q hq => .once (hps q hq)
  | case6 segment rest dir hne ih =>
    refine finds_below cwd hd (fun p name node hname hwanted hnode => ?_) maxDepth dir
    exact (ih node).mono fun ps hps q hq => .found hname hwanted (hnode ▸ hps q hq)
  | case7 dir =>
    refine finds_below cwd hd (fun p name node hname _ hnode => finds_pure ?_) maxDepth dir
    intro q hq
    split at hq
    · rw [List.mem_singleton.mp hq, hnode]
      exact .last hname
    · exact absurd hq List.not_mem_nil

end Walk

end Disk

end CastGuard
