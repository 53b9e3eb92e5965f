/-
# `CastGuard.Fixer` — all rules over one text

A fixer applies the rules of a style one after the other: look-ups first, kind by kind, then casts,
form by form.  Each rule sees what the rules before it left.  `trail` lists the state after each
rule; the outcome of a fix is read off it.  A fixer can be had for every sound style, however many
types it lists: no size limit of compiled patterns is modelled.
-/
import CastGuard.Downcast.Rule
import CastGuard.Lookup.Rule
import CastGuard.Style
import CastGuard.Tally

namespace CastGuard

inductive Rule where
  | lookup (r : Lookup.Rule)
  | downcast (r : Downcast.Rule)
  deriving DecidableEq, Repr

namespace Rule

def id : Rule → String
  | lookup r => r.id
  | downcast r => r.id

def text : Rule → List Char → List Char
  | lookup r => r.text
  | downcast r => r.text

def fixes : Rule → List Char → Nat
  | lookup r => r.fixes
  | downcast r => r.fixes

end Rule

def Style.guard (s : Style) : Downcast.Guard := ⟨s.holder, s.null⟩

def Style.lookupRules (s : Style) : List Rule := (Lookup.rules s.lib).map .lookup

def Style.downcastRules (s : Style) : List Rule := (Downcast.rules s.guard s.types).map .downcast

/-- All rules of a style, in the order in which they are applied. -/
def Style.rules (s : Style) : List Rule := s.lookupRules ++ s.downcastRules

/-- What one rule did: its name, its fixes and the text it left. -/
structure Step where
  rule : String
  fixes : Nat
  text : List Char
  deriving DecidableEq, Repr

/-- What each rule did, applied in turn. -/
def trail : List Rule → List Char → List Step
  | [], _ => []
  | r :: rs, cs => ⟨r.id, r.fixes cs, r.text cs⟩ :: trail rs (r.text cs)

/-- The text that a sequence of rules leaves. -/
def afterRules (rs : List Rule) (cs : List Char) : List Char := rs.foldl (fun cs r => r.text cs) cs

theorem afterRules_cons (r : Rule) (rs : List Rule) (cs : List Char) :
    afterRules (r :: rs) cs = afterRules rs (r.text cs) := rfl

theorem afterRules_eq_trail (rs : List Rule) (cs : List Char) :
    afterRules rs cs = ((trail rs cs).getLast?.map Step.text).getD cs := by
  induction rs generalizing cs with
  | nil => rfl
  | cons r rs ih =>
    rw [afterRules_cons, ih]
    simp only [trail, List.getLast?_cons]
    cases (trail rs (r.text cs)).getLast? <;> rfl

structure Outcome where
  text : String
  fixes : Nat
  byRule : Tally
  deriving DecidableEq, Repr

/-- The sum of the fixes of a trail. -/
def trailFixes (steps : List Step) : Nat := sumOf Step.fixes steps

theorem trailFixes_trail_cons (r : Rule) (rs : List Rule) (cs : List Char) :
    trailFixes (trail (r :: rs) cs) = r.fixes cs + trailFixes (trail rs (r.text cs)) := rfl

/-- Rules that find nothing in a text leave it as it is. -/
theorem afterRules_of_quiet {rs : List Rule} {cs : List Char}
    (h : ∀ r ∈ rs, r.text cs = cs ∧ r.fixes cs = 0) :
    afterRules rs cs = cs ∧ trailFixes (trail rs cs) = 0 := by
  induction rs with
  | nil => exact ⟨rfl, rfl⟩
  | cons r rs ih =>
    obtain ⟨⟨htext, hfixes⟩, hlater⟩ := List.forall_mem_cons.mp h
    rw [afterRules_cons, trailFixes_trail_cons, htext, hfixes, Nat.zero_add]
    exact ih hlater

/-- The fixes of a trail by rule; rules without any are left out. -/
def trailTally (steps : List Step) : Tally :=
  (steps.filter (0 < ·.fixes)).foldl (fun t s => t.add s.rule s.fixes) []

/-- The rules of a style that was found sound. -/
structure Fixer where
  rules : List Rule
  deriving DecidableEq, Repr

namespace Fixer

def ofStyle (s : Style) : Except StyleError Fixer :=
  match s.firstError? with
  | some e => .error e
  | none => .ok ⟨s.rules⟩

theorem ofStyle_eq_ok_iff {s : Style} {f : Fixer} :
    ofStyle s = .ok f ↔ s.Sound ∧ f = ⟨s.rules⟩ := by
  unfold ofStyle Style.Sound
  cases s.firstError? <;> simp [eq_comm]

def ruleIds (f : Fixer) : List String := f.rules.map Rule.id

/-- Applies all rules to a text. -/
def fix (f : Fixer) (text : String) : Outcome :=
  let steps := trail f.rules text.toList
  ⟨String.ofList (((steps.getLast?).map Step.text).getD text.toList), trailFixes steps,
    trailTally steps⟩

theorem fix_text (f : Fixer) (text : String) :
    (f.fix text).text = String.ofList (afterRules f.rules text.toList) := by
  rw [afterRules_eq_trail]
  rfl

end Fixer

end CastGuard
