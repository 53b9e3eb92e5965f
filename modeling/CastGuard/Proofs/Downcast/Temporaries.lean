/-
# `CastGuard.Proofs.Downcast.Temporaries` — which temporaries collide

Every guarded cast declares a temporary on a line of its own.  A declaration's is named after the
variable, `_name_res`; the other two forms have a fixed name each, `_return_res` and `_loaded_res`,
which are the ones of variables called `return` and `loaded`.  So all temporaries are named in one
way after a stem, and two collide exactly if the stems are equal (`temporaries_nodup_iff`):

* two casts that are returned, or two that are assigned, always collide;
* a variable collides with another of the same name, with a returned cast if it is called `return`,
  and with an assigned one if it is called `loaded`.

The first name is a keyword, but the second is as good as any other: `loaded_collides` is a script
in which the temporary of an assignment is declared a second time.

`guards` collects what the rules guard, rule by rule.  That these are the casts to look at is said
beside it: they are as many as the fixes, form by form, and the line that holds the value of each is
one of the lines of the fixed text.
-/
import CastGuard.Proofs.Downcast.AnyOrder
import Mathlib.Data.List.Nodup
import Mathlib.Data.List.Perm.Subperm

namespace CastGuard.Downcast

open CastGuard.Text

/-! ## What the rules guard -/

/-- The statements whose casts rules guard, applied in turn. -/
def guards : List Rule → List Char → List Statement
  | [], _ => []
  | r :: rs, cs => r.guards cs ++ guards rs (r.text cs)

theorem mem_guards {rs : List Rule} {cs : List Char} {u : Statement} (h : u ∈ guards rs cs) :
    ∃ r ∈ rs, u.destination.form = r.form := by
  induction rs generalizing cs with
  | nil => exact absurd h List.not_mem_nil
  | cons r rs ih =>
    rcases List.mem_append.mp h with h | h
    · exact ⟨r, List.mem_cons_self, (Rule.fits_of_mem_finds (List.mem_of_mem_filter h)).1⟩
    · obtain ⟨q, hq, hform⟩ := ih h
      exact ⟨q, List.mem_cons_of_mem _ hq, hform⟩

theorem fixes_eq_countP_guards {rs : List Rule} (hrs : (rs.map Rule.form).Nodup) (cs : List Char) :
    (trail (downcasts rs) cs).map (fun step => (step.rule, step.fixes)) =
      rs.map fun r => (r.id, (guards rs cs).countP fun u => u.destination.form = r.form) := by
  induction rs generalizing cs with
  | nil => rfl
  | cons r rs ih =>
    rw [List.map_cons, List.nodup_cons] at hrs
    obtain ⟨hr, hlater⟩ := hrs
    -- the first rule guards statements of its own form, and no later rule does
    have hown : ∀ u ∈ r.guards cs, u.destination.form = r.form :=
      fun u hu => (Rule.fits_of_mem_finds (List.mem_of_mem_filter hu)).1
    have hothers : ∀ u ∈ guards rs (r.text cs), u.destination.form ≠ r.form := by
      intro u hu hform
      obtain ⟨q, hq, hqform⟩ := mem_guards hu
      exact hr (hform ▸ hqform ▸ List.mem_map_of_mem hq)
    have hfirst : r.fixes cs = (guards (r :: rs) cs).countP fun u =>
      u.destination.form = r.form := by
      rw [guards, List.countP_append, List.countP_eq_length.mpr (by simpa using hown),
        List.countP_eq_zero.mpr (by simpa using hothers)]
      rfl
    have hrest : ∀ q ∈ rs,
        (q.id, (guards rs (r.text cs)).countP fun u => u.destination.form = q.form) =
          (q.id, (guards (r :: rs) cs).countP fun u => u.destination.form = q.form) := by
      intro q hq
      have hne : r.form ≠ q.form := fun heq => hr (heq ▸ List.mem_map_of_mem hq)
      have hzero : (r.guards cs).countP (fun u => u.destination.form = q.form) = 0 := by
        rw [List.countP_eq_zero]
        intro u hu
        simpa [hown u hu] using hne
      rw [guards, List.countP_append, hzero, Nat.zero_add]
    have hsteps := ih hlater (r.text cs)
    rw [List.map_congr_left hrest] at hsteps
    rw [List.map_cons, ← hfirst, ← hsteps]
    rfl

theorem guards_append {rs : List Rule} (hrs : ∀ r ∈ rs, r.OnLines) (front back : List Char) :
    (guards rs (front ++ '\n' :: back)).Perm (guards rs front ++ guards rs back) := by
  induction rs generalizing front back with
  | nil => exact .nil
  | cons r rs ih =>
    obtain ⟨hr, hlater⟩ := List.forall_mem_cons.mp hrs
    have hrest := ih hlater (r.text front) (r.text back)
    rw [guards, guards, guards, Rule.guards_append hr, Rule.text_append hr]
    refine (hrest.append_left _).trans ?_
    rw [List.append_assoc, List.append_assoc]
    refine .append_left _ ?_
    rw [← List.append_assoc, ← List.append_assoc]
    exact .append_right _ List.perm_append_comm

theorem guards_of_quiet {rs : List Rule} {cs : List Char}
    (h : ∀ r ∈ rs, r.text cs = cs ∧ r.fixes cs = 0) :
    guards rs cs = [] ∧ afterRules (downcasts rs) cs = cs := by
  refine ⟨?_, (afterRules_of_quiet (List.forall_mem_map.mpr h)).1⟩
  induction rs with
  | nil => rfl
  | cons r rs ih =>
    obtain ⟨⟨htext, hfixes⟩, hlater⟩ := List.forall_mem_cons.mp h
    rw [guards, htext, ih hlater, Rule.guards_eq_nil hfixes, List.append_nil]

/-! ## The lines that hold the values -/

section Held

variable {g : Guard} {types : List (List Char)} (hg : g.Fresh types) {rs : List Rule}
  (hrs : ∀ r ∈ rs, r.guard = g ∧ r.typeTexts = types)
include hg hrs

theorem onLines_of_fresh : ∀ r ∈ rs, r.OnLines := by
  intro r hr
  have hfresh : g.Fresh r.typeTexts := by rwa [(hrs r hr).2]
  exact hfresh.onLines

theorem guards_heldLine {s : Statement} (hs : s.Fits types) :
    guards rs (s.heldLine g) = [] ∧ afterRules (downcasts rs) (s.heldLine g) = s.heldLine g := by
  refine guards_of_quiet fun r hr => ?_
  refine Rule.on_not_guardable (s.heldLine_line hs hg.holder) fun u hu => ?_
  rw [(hrs r hr).2] at hu
  exact not_reads_heldLine hs hg.typeChars hg.holder hg.unknown hu.1

theorem heldLines_line {line : List Char} (hline : '\n' ∉ line) :
    ((guards rs line).map (Statement.heldLine g)).Subperm
      (parts '\n' (afterRules (downcasts rs) line)) := by
  induction rs generalizing line with
  | nil => exact List.nil_subperm
  | cons r rs ih =>
    obtain ⟨⟨hguard, htypes⟩, hlater⟩ := List.forall_mem_cons.mp hrs
    have hon := onLines_of_fresh hg hlater
    change ((r.guards line ++ guards rs (r.text line)).map _).Subperm
      (parts '\n' (afterRules (downcasts rs) (r.text line)))
    rcases r.on_line hline with ⟨s, ⟨hreads, -⟩, htext, hguards⟩ | ⟨htext, hfixes⟩
    · rw [htypes] at hreads
      have hs := hreads.fits
      have hheld := s.heldLine_line hs hg.holder
      have htesting := s.testing_line_of_written hs (hreads.written ▸ hline) hg.null
      -- later rules leave the held line alone, whatever they make of the testing line
      obtain ⟨hnone, hkept⟩ := guards_heldLine hg hlater hs
      have hperm := guards_append hon (s.heldLine g) (s.testing g)
      rw [hnone, List.nil_append] at hperm
      rw [hguards, htext, hguard, s.guarded_eq_lines, (downcasts_append hon _ _).1, hkept,
        parts_append_cons hheld, List.map_append]
      refine (List.subperm_cons _).mpr ((hperm.map _).subperm.trans ?_)
      exact ih hlater htesting
    · rw [htext, Rule.guards_eq_nil hfixes]
      exact ih hlater hline

/-- The lines that hold the values of guarded casts are lines of the text that the rules leave. -/
theorem heldLines_subperm (cs : List Char) :
    ((guards rs cs).map (Statement.heldLine g)).Subperm
      (parts '\n' (afterRules (downcasts rs) cs)) := by
  have hon := onLines_of_fresh hg hrs
  induction cs using parts_induction '\n' with
  | last line hline => exact heldLines_line hg hrs hline
  | more line rest hline ih =>
    rw [(downcasts_append hon line rest).1, parts_append]
    have hperm := (guards_append hon line rest).map (Statement.heldLine g)
    rw [List.map_append] at hperm
    exact hperm.subperm.trans ((heldLines_line hg hrs hline).append ih)

end Held

/-! ## Stems -/

/-- What the temporary for a destination is named after. -/
def Destination.stem : Destination → List Char
  | .variable name _ => name
  | .caller => "return".toList
  | .target _ => "loaded".toList

def Destination.declared? : Destination → Option (List Char)
  | .variable name _ => some name
  | _ => none

theorem Destination.temporary_eq_stem (d : Destination) :
    d.temporary = '_' :: (d.stem ++ "_res".toList) := by
  cases d <;> rfl

def declared (us : List Statement) : List (List Char) :=
  us.filterMap fun u => u.destination.declared?

def countForm (f : Form) (us : List Statement) : Nat := us.countP fun u => u.destination.form = f

theorem declared_cons (u : Statement) (us : List Statement) :
    declared (u :: us) = u.destination.declared?.toList ++ declared us := by
  rw [declared, declared, List.filterMap_cons]
  cases u.destination.declared? <;> rfl

theorem countForm_cons (f : Form) (u : Statement) (us : List Statement) :
    countForm f (u :: us) = countForm f us + if u.destination.form = f then 1 else 0 := by
  simp [countForm, List.countP_cons]

/-- The stems are the declared names, and one fixed stem for each statement of the other forms. -/
theorem stems_perm (us : List Statement) : (us.map fun u => u.destination.stem).Perm
    (declared us ++ (List.replicate (countForm .returning us) "return".toList ++
      List.replicate (countForm .assignment us) "loaded".toList)) := by
  induction us with
  | nil => exact .nil
  | cons u us ih =>
    rw [List.map_cons, declared_cons, countForm_cons, countForm_cons]
    refine (ih.cons _).trans ?_
    rcases u.destination with ⟨name, t⟩ | _ | name
    · exact .refl _
    · exact List.perm_middle.symm
    · change ("loaded".toList :: (declared us ++ (_ ++ _))).Perm
        (declared us ++ (_ ++ "loaded".toList :: _))
      rw [← List.append_assoc, ← List.append_assoc]
      exact List.perm_middle.symm

theorem disjoint_replicate_iff {α : Type} {as : List α} {n : Nat} {a : α} :
    as.Disjoint (List.replicate n a) ↔ (0 < n → a ∉ as) := by
  simp only [List.Disjoint, List.mem_replicate, Nat.pos_iff_ne_zero]
  exact ⟨fun h hn ha => h ha ⟨hn, rfl⟩, fun h b hb ⟨hn, hba⟩ => h hn (hba ▸ hb)⟩

theorem nodup_temporaries_iff (us : List Statement) :
    (us.map fun u => u.destination.temporary).Nodup ↔
      (declared us).Nodup ∧ countForm .returning us ≤ 1 ∧ countForm .assignment us ≤ 1 ∧
        (0 < countForm .returning us → "return".toList ∉ declared us) ∧
        (0 < countForm .assignment us → "loaded".toList ∉ declared us) := by
  have hstems : (us.map fun u => u.destination.temporary) =
      (us.map fun u => u.destination.stem).map fun stem => '_' :: (stem ++ "_res".toList) := by
    rw [List.map_map]
    exact List.map_congr_left fun u _ => u.destination.temporary_eq_stem
  have hinj : Function.Injective fun stem : List Char => '_' :: (stem ++ "_res".toList) := by
    intro stem stem' heq
    exact List.append_cancel_right (List.cons.inj heq).2
  have hfixed : (List.replicate (countForm .returning us) "return".toList).Disjoint
      (List.replicate (countForm .assignment us) "loaded".toList) := by
    rw [disjoint_replicate_iff]
    intro _ hmem
    exact absurd (List.eq_of_mem_replicate hmem) (by decide)
  rw [hstems, List.nodup_map_iff hinj, (stems_perm us).nodup_iff, List.nodup_append',
    List.nodup_append', and_iff_left hfixed, List.nodup_replicate, List.nodup_replicate,
    List.disjoint_append_right, disjoint_replicate_iff, disjoint_replicate_iff, and_assoc]

/-! ## The pass of a style -/

/-- The statements whose casts the rules of a style guard. -/
def guardedIn (s : Style) (cs : List Char) : List Statement := guards (rules s.guard s.types) cs

theorem exists_of_mem_rules {g : Guard} {types : List String} {r : Rule} (h : r ∈ rules g types) :
    ∃ f, r = ⟨f, g, types⟩ := by
  unfold rules at h
  split at h
  · exact absurd h List.not_mem_nil
  · obtain ⟨f, -, rfl⟩ := List.mem_map.mp h
    exact ⟨f, rfl⟩

theorem nodup_forms_rules (g : Guard) (types : List String) :
    ((rules g types).map Rule.form).Nodup := by
  unfold rules
  split
  · exact .nil
  · rw [List.map_map]
    exact (by decide : Form.all.Nodup)

/-- Each form of statement is guarded as often as its rule makes fixes, and each guarded cast has
the line that holds its value among the lines of the fixed text.  The temporaries that these lines
declare are distinct exactly if at most one guarded cast is returned and at most one is assigned,
the declared names are distinct, `return` is none of them if a cast is returned, and `loaded` is
none of them if one is assigned. -/
theorem temporaries_nodup_iff {s : Style} (hs : s.Sound) (hnull : '\n' ∉ s.null.toList)
    (cs : List Char) :
    (trail s.downcastRules cs).map (fun step => (step.rule, step.fixes)) =
        ((rules s.guard s.types).map fun r => (r.id, countForm r.form (guardedIn s cs))) ∧
    ((guardedIn s cs).map (Statement.heldLine s.guard)).Subperm
        (parts '\n' (afterRules s.downcastRules cs)) ∧
    (((guardedIn s cs).map fun u => u.destination.temporary).Nodup ↔
      (declared (guardedIn s cs)).Nodup ∧ countForm .returning (guardedIn s cs) ≤ 1 ∧
        countForm .assignment (guardedIn s cs) ≤ 1 ∧
        (0 < countForm .returning (guardedIn s cs) → "return".toList ∉ declared (guardedIn s cs)) ∧
        (0 < countForm .assignment (guardedIn s cs) →
          "loaded".toList ∉ declared (guardedIn s cs))) := by
  have hrules : ∀ r ∈ rules s.guard s.types, r.guard = s.guard ∧
      r.typeTexts = (Rule.mk .declaration s.guard s.types).typeTexts := by
    intro r hr
    obtain ⟨f, rfl⟩ := exists_of_mem_rules hr
    exact ⟨rfl, rfl⟩
  have hfresh := fresh_of_sound hs hnull .declaration
  exact ⟨fixes_eq_countP_guards (nodup_forms_rules s.guard s.types) cs,
    heldLines_subperm hfresh hrules cs, nodup_temporaries_iff _⟩

/-- A variable called `loaded` beside a returned cast, and one that is called like the first one's
temporary. -/
theorem temporaries_nodup_iff_alike :
    (Style.mk "D" "Res" "0" ["Npc"]).Sound ∧ '\n' ∉ "0".toList ∧
    ((guardedIn ⟨"D", "Res", "0", ["Npc"]⟩
      "var loaded: Npc = a as Npc\nreturn b as Npc\nvar _loaded_res: Npc = c as Npc".toList).map
        fun u => String.ofList u.destination.temporary) =
      ["_loaded_res", "__loaded_res_res", "_return_res"] ∧
    ((guardedIn ⟨"D", "Res", "0", ["Npc"]⟩
      "var loaded: Npc = a as Npc\nreturn b as Npc\nvar _loaded_res: Npc = c as Npc".toList).map
        fun u => u.destination.temporary).Nodup := by
  have hsound : (Style.mk "D" "Res" "0" ["Npc"]).Sound := by decide +kernel
  have hnull : '\n' ∉ "0".toList := by decide
  obtain ⟨-, -, hnodup⟩ := temporaries_nodup_iff hsound hnull
    "var loaded: Npc = a as Npc\nreturn b as Npc\nvar _loaded_res: Npc = c as Npc".toList
  exact ⟨hsound, hnull, by decide +kernel, hnodup.mpr (by decide +kernel)⟩

/-- A variable called `loaded` beside an assigned cast: the same temporary is declared twice. -/
theorem loaded_collides :
    Style.standard.Sound ∧ '\n' ∉ Style.standard.null.toList ∧
    (trail Style.standard.downcastRules
      "var loaded: ItemData = a as ItemData\nx = b as ItemData\n".toList).map
        (fun step => (step.rule, step.fixes)) =
      [("cast.declaration", 1), ("cast.return", 0), ("cast.assignment", 1)] ∧
    declared (guardedIn Style.standard
      "var loaded: ItemData = a as ItemData\nx = b as ItemData\n".toList) = ["loaded".toList] ∧
    (parts '\n' (afterRules Style.standard.downcastRules
      "var loaded: ItemData = a as ItemData\nx = b as ItemData\n".toList)).map String.ofList =
      ["var _loaded_res: Resource = a",
        "var loaded: ItemData = _loaded_res if _loaded_res is ItemData else null",
        "var _loaded_res: Resource = b",
        "x = _loaded_res if _loaded_res is ItemData else null", ""] ∧
    ¬ ((guardedIn Style.standard
      "var loaded: ItemData = a as ItemData\nx = b as ItemData\n".toList).map
      fun u => u.destination.temporary).Nodup :=
  ⟨Style.standard_sound, by decide, by decide +kernel, by decide +kernel, by decide +kernel,
    by decide +kernel⟩

end CastGuard.Downcast
