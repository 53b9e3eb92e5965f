/-
# `CastGuard.Proofs.Store.Discovery` — what the search for scripts finds

Searching a project asks a disk and leaves it as it is.  If the search succeeds, each of its results
is a file below one of the scan roots that is not left out, and its path matches the pattern of that
root (`answers_discover`).  The results come in order, each once.
-/
import CastGuard.Proofs.Glob.Walk
import CastGuard.Proofs.ScriptPath.Order

namespace CastGuard

open Text Glob

/-! ## Results in order -/

namespace Tree

theorem ordered_inOrder (paths : List String) :
    (inOrder paths).Pairwise fun p q => ScriptPath.before p q = true := by
  have hfold : ∀ (paths : List String) (m : PathMap Unit), m.Ordered →
      (paths.foldl (fun (m : PathMap Unit) p => m.add p ()) m).Ordered := by
    intro paths
    induction paths with
    | nil => exact fun m hm => hm
    | cons p paths ih => exact fun m hm => ih _ (hm.insertWith fun _ => .inl rfl)
  exact hfold paths [] List.Pairwise.nil

theorem mem_of_mem_inOrder {paths : List String} {q : String} (h : q ∈ inOrder paths) :
    q ∈ paths := by
  have hfold : ∀ (paths : List String) (m : PathMap Unit),
      q ∈ (paths.foldl (fun (m : PathMap Unit) p => m.add p ()) m).paths →
        q ∈ paths ∨ q ∈ m.paths := by
    intro paths
    induction paths with
    | nil => exact fun m hq => .inr hq
    | cons p paths ih =>
      intro m hq
      rcases ih _ hq with hq | hq
      · exact .inl (List.mem_cons_of_mem _ hq)
      · rcases PathMap.mem_paths_insertWith (fun _ => .inl rfl) hq with rfl | hq
        · exact .inl List.mem_cons_self
        · exact .inr hq
  exact (hfold paths [] h).resolve_right (by simp [PathMap.paths])

theorem exists_same_of_mem {paths : List String} {p : String} (h : p ∈ paths) :
    ∃ q ∈ inOrder paths, ScriptPath.same q p = true := by
  have hfold : ∀ (paths : List String) (m : PathMap Unit),
      (p ∈ paths ∨ ∃ q ∈ m.paths, ScriptPath.same q p = true) →
      ∃ q ∈ (paths.foldl (fun (m : PathMap Unit) p => m.add p ()) m).paths,
        ScriptPath.same q p = true := by
    intro paths
    induction paths with
    | nil => exact fun m hp => hp.resolve_left List.not_mem_nil
    | cons path paths ih =>
      intro m hp
      refine ih _ ?_
      rcases hp with hp | ⟨q, hq, hsame⟩
      · rcases List.mem_cons.mp hp with rfl | hp
        · exact .inr (PathMap.exists_same_add p () m)
        · exact .inl hp
      · exact .inr ⟨q, PathMap.mem_paths_add hq, hsame⟩
  exact hfold paths [] (.inl h)

end Tree

/-! ## The search -/

namespace Disk

/-- A script that the search below a scan root can come upon, as seen from the project root. -/
def Shows (d : Disk) (cwd : Place) (base root path : String) : Prop :=
  ∃ pattern full, PathPattern.parse (Tree.rootPattern base root) = .ok pattern ∧
    Matches pattern.segments (if pattern.absolute then "/" else ".") full ∧
    d.isFile cwd full = true ∧ path = Tree.relative base full

section Search

variable {d : Disk} (cwd : Place)

theorem answers_filesAmong (paths : List String) :
    d.Answers (Tree.filesAmong (fileSystem cwd) paths) (paths.filter fun p => d.isFile cwd p) := by
  have hone : ∀ p ∈ paths, d.Answers ((fileSystem cwd).isFile p >>= fun there =>
      if there then pure [p] else pure []) (if d.isFile cwd p then [p] else []) := by
    intro p _
    refine (answers_ask _).bind ?_
    split <;> exact answers_pure _
  have hfilter : (paths.flatMap fun p => if d.isFile cwd p then [p] else []) =
      paths.filter fun p => d.isFile cwd p := by
    induction paths with
    | nil => rfl
    | cons p paths ih => cases h : d.isFile cwd p <;> simp_all
  exact hfilter ▸ answers_gather hone

theorem answers_scriptsBelow (hd : d.Sound) (base root : String) :
    ∃ r, d.Answers (Tree.scriptsBelow (fileSystem cwd) base root) r ∧
      ∀ found, r = .ok found → ∀ p ∈ found, d.Shows cwd base root p := by
  unfold Tree.scriptsBelow
  cases hparse : PathPattern.parse (Tree.rootPattern base root) with
  | error e => exact ⟨_, answers_pure _, fun _ heq => absurd heq (by simp)⟩
  | ok pattern =>
    obtain ⟨r, hr, hok⟩ : d.Finds (pattern.paths (fileSystem cwd)) fun ps =>
        ∀ q ∈ ps, Matches pattern.segments (if pattern.absolute then "/" else ".") q :=
      (finds_nodeAt cwd _).bind fun node hnode => hnode ▸ finds_walk cwd hd pattern.segments node
    cases r with
    | error e => exact ⟨_, hr.bind (answers_pure _), fun _ heq => absurd heq (by simp)⟩
    | ok paths =>
      refine ⟨_, hr.bind ((answers_filesAmong cwd paths).bind (answers_pure _)), ?_⟩
      intro found heq p hp
      obtain rfl := Except.ok.inj heq
      obtain ⟨full, hfull, rfl⟩ := List.mem_map.mp hp
      obtain ⟨hmem, hfile⟩ := List.mem_filter.mp hfull
      exact ⟨pattern, full, hparse, hok paths rfl full hmem, hfile, rfl⟩

theorem answers_scriptsBelowAll (hd : d.Sound) (base : String) (roots : List String) :
    ∃ r, d.Answers (Tree.scriptsBelowAll (fileSystem cwd) base roots) r ∧
      ∀ found, r = .ok found → ∀ p ∈ found, ∃ root ∈ roots,
        d.Shows cwd base (Selection.trimRoot root) p := by
  induction roots with
  | nil => exact ⟨.ok [], answers_pure _, fun _ heq p hp => by simp_all⟩
  | cons root roots ih =>
    obtain ⟨r, hr, hok⟩ := answers_scriptsBelow cwd hd base (Selection.trimRoot root)
    obtain ⟨r', hr', hok'⟩ := ih
    unfold Tree.scriptsBelowAll
    cases r with
    | error e => exact ⟨_, hr.bind (answers_pure _), fun _ heq => absurd heq (by simp)⟩
    | ok found =>
      cases r' with
      | error e =>
        exact ⟨_, hr.bind (hr'.bind (answers_pure _)), fun _ heq => absurd heq (by simp)⟩
      | ok more =>
        refine ⟨_, hr.bind (hr'.bind (answers_pure _)), ?_⟩
        intro all heq p hp
        obtain rfl := Except.ok.inj heq
        rcases List.mem_append.mp hp with hp | hp
        · exact ⟨root, List.mem_cons_self, hok found rfl p hp⟩
        · obtain ⟨root', hmem, hshows⟩ := hok' more rfl p hp
          exact ⟨root', List.mem_cons_of_mem _ hmem, hshows⟩

/-- The search for scripts leaves the disk as it is, and finds only files below the scan roots that
are not left out, in order. -/
theorem answers_discover (hd : d.Sound) (projectRoot : String) (s : Selection) :
    ∃ r, d.Answers (Tree.discover (fileSystem cwd) projectRoot s) r ∧
      ∀ found, r = .ok found →
        (found.Pairwise fun p q => ScriptPath.before p q = true) ∧
        ∀ p ∈ found, s.excludes p = false ∧ ∃ root ∈ s.roots,
          d.Shows cwd (Tree.base projectRoot) (Selection.trimRoot root) p := by
  obtain ⟨r, hr, hok⟩ := answers_scriptsBelowAll cwd hd (Tree.base projectRoot) s.roots
  unfold Tree.discover
  cases r with
  | error e => exact ⟨_, hr.bind (answers_pure _), fun _ heq => absurd heq (by simp)⟩
  | ok found =>
    refine ⟨_, hr.bind (answers_pure _), ?_⟩
    intro all heq
    obtain rfl := Except.ok.inj heq
    refine ⟨Tree.ordered_inOrder _, fun p hp => ?_⟩
    obtain ⟨hmem, hkept⟩ := List.mem_filter.mp (Tree.mem_of_mem_inOrder hp)
    exact ⟨by simpa using hkept, hok found rfl p hmem⟩

end Search

end Disk

end CastGuard
