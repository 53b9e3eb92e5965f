/-
# `CastGuard.Proofs.Run.Logged` — runs that keep a list of what they asked for

A logged store answers like the store itself and notes every call.  A run only passes the answers
on, so what it does with a logged store is what it does with the store, note-taking apart
(`run_logged`).  The list of calls then tells which scripts a run has read.
-/
import CastGuard.Run
import CastGuard.Store.Fault

namespace CastGuard

variable {m : Type → Type} [Monad m]

/-- The store with every call noted, whether it fails or not. -/
def Store.logged (store : Store m) : Store (StateT (List StoreCall) m) where
  discover s := fun calls => (fun r => (r, calls ++ [.discover])) <$> store.discover s
  read path := fun calls => (fun r => (r, calls ++ [.read path])) <$> store.read path
  write path text := fun calls => (fun r => (r, calls ++ [.write path])) <$> store.write path text

/-- The two do the same, but for the notes that the first one takes. -/
def Erases {α : Type} (noted : StateT (List StoreCall) m α) (plain : m α) : Prop :=
  ∀ calls, Prod.fst <$> noted.run calls = plain

section Lawful

variable [LawfulMonad m] {α β : Type}

theorem Erases.pure (a : α) : Erases (Pure.pure a : StateT (List StoreCall) m α) (Pure.pure a) :=
  fun calls => by simp

theorem Erases.bind {noted : StateT (List StoreCall) m α} {plain : m α}
    {f : α → StateT (List StoreCall) m β} {g : α → m β} (h : Erases noted plain)
    (hfg : ∀ a, Erases (f a) (g a)) : Erases (noted >>= f) (plain >>= g) := by
  intro calls
  calc Prod.fst <$> (noted >>= f).run calls
      = noted.run calls >>= fun p => Prod.fst <$> (f p.1).run p.2 := by
        rw [StateT.run_bind, map_bind]
    _ = noted.run calls >>= fun p => g p.1 := by
        simp only [hfg _ _]
    _ = (Prod.fst <$> noted.run calls) >>= g := by
        rw [bind_map_left]
    _ = plain >>= g := by rw [h]

theorem erases_noted (act : m α) (call : StoreCall) :
    Erases (fun calls => (fun r => (r, calls ++ [call])) <$> act) act := by
  intro calls
  change Prod.fst <$> (fun r => (r, calls ++ [call])) <$> act = act
  simp

variable (store : Store m)

theorem visit_logged (fixer : Fixer) (r : Report) (path : String) :
    Erases (visit store.logged fixer r path) (visit store fixer r path) := by
  refine (erases_noted (store.read path) (.read path)).bind fun answer => ?_
  cases answer with
  | error e => exact .pure _
  | ok before =>
    simp only
    split
    · exact .pure _
    · have hwrite : Erases (writeBack store.logged r.dryRun path (fixer.fix before).text)
          (writeBack store r.dryRun path (fixer.fix before).text) := by
        unfold writeBack
        split
        · exact .pure _
        · exact erases_noted _ _
      refine hwrite.bind fun answer => ?_
      cases answer with
      | error e => exact .pure _
      | ok _ => exact .pure _

theorem visitAll_logged (fixer : Fixer) (r : Report) (paths : List String) :
    Erases (visitAll store.logged fixer r paths) (visitAll store fixer r paths) := by
  induction paths generalizing r with
  | nil => exact .pure _
  | cons path paths ih =>
    refine (visit_logged store fixer r path).bind fun result => ?_
    cases result with
    | error e => exact .pure _
    | ok r => exact ih r

/-- Logging makes no difference to a run. -/
theorem run_logged (s : RunSettings) : Erases (run store.logged s) (run store s) := by
  unfold run
  cases Fixer.ofStyle s.style with
  | error e => exact .pure _
  | ok fixer =>
    refine (erases_noted (store.discover s.selection) .discover).bind fun answer => ?_
    cases answer with
    | error e => exact .pure _
    | ok paths => exact visitAll_logged store fixer _ paths

end Lawful

end CastGuard
