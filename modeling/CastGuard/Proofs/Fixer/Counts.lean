/-
# `CastGuard.Proofs.Fixer.Counts` — what the counts of a fix say

Fixing a text gives a text, a number of fixes and a tally by rule.  The three agree: the text has
changed exactly if the number is not zero, and the tally lists the rules that made fixes, each once
and with as many as it made, so that it adds up to the number (`changed_iff_fixed`).

This holds for every sound style.  In particular nothing is asked of the null literal, which may
have line ends and parentheses or end in a cast: what a rule emits may then be read again by the
next one, and ink (`CastGuard.Proofs.Fixer.Growth`) still grows with every fix.

A tally is built by adding the steps of a trail one after the other.  One entry per rule, with the
fixes of one step, comes out of it because no two rules of a style have the same name.
-/
import CastGuard.Proofs.Fixer.Growth

namespace CastGuard

/-! ## Tallies -/

namespace Tally

/-- The names of a tally are in increasing order, so that each occurs once. -/
def Ordered (t : Tally) : Prop := t.Pairwise fun d e => d.1 < e.1

theorem name_mem_add {rule : String} {n : Nat} {t : Tally} {e : String × Nat}
    (h : e ∈ add rule n t) :
    e.1 = rule ∨ ∃ d ∈ t, e.1 = d.1 := by
  fun_induction add rule n t with
  | case1 => exact .inl (by rw [List.mem_singleton.mp h])
  | case2 m t =>
    rcases List.mem_cons.mp h with rfl | h
    · exact .inl rfl
    · exact .inr ⟨e, List.mem_cons_of_mem _ h, rfl⟩
  | case3 r m t =>
    rcases List.mem_cons.mp h with rfl | h
    · exact .inl rfl
    · exact .inr ⟨e, h, rfl⟩
  | case4 r m t _ _ ih =>
    rcases List.mem_cons.mp h with rfl | h
    · exact .inr ⟨_, List.mem_cons_self, rfl⟩
    · rcases ih h with hrule | ⟨d, hd, heq⟩
      · exact .inl hrule
      · exact .inr ⟨d, List.mem_cons_of_mem _ hd, heq⟩

theorem mem_add_iff {rule : String} {n : Nat} {t : Tally} (hnew : ∀ d ∈ t, d.1 ≠ rule)
    {e : String × Nat} : e ∈ add rule n t ↔ e = (rule, n) ∨ e ∈ t := by
  fun_induction add rule n t with
  | case1 => simp
  | case2 m t => exact absurd rfl (hnew _ List.mem_cons_self)
  | case3 r m t => simp
  | case4 r m t _ _ ih =>
    rw [List.mem_cons, List.mem_cons, ih fun d hd => hnew d (List.mem_cons_of_mem _ hd)]
    exact or_left_comm

theorem Ordered.add {t : Tally} (h : t.Ordered) (rule : String) (n : Nat) :
    (t.add rule n).Ordered := by
  fun_induction Tally.add rule n t with
  | case1 => exact List.pairwise_singleton _ _
  | case2 m t =>
    obtain ⟨hfirst, hlater⟩ := List.pairwise_cons.mp h
    exact List.pairwise_cons.mpr ⟨hfirst, hlater⟩
  | case3 r m t _ hlt =>
    obtain ⟨hfirst, -⟩ := List.pairwise_cons.mp h
    refine List.pairwise_cons.mpr ⟨?_, h⟩
    rw [List.forall_mem_cons]
    exact ⟨hlt, fun d hd => String.lt_trans hlt (hfirst d hd)⟩
  | case4 r m t hne hlt ih =>
    obtain ⟨hfirst, hlater⟩ := List.pairwise_cons.mp h
    refine List.pairwise_cons.mpr ⟨fun e he => ?_, ih hlater⟩
    rcases name_mem_add he with hrule | ⟨d, hd, heq⟩
    · rw [hrule]
      exact String.not_le.mp fun hle => hne (String.le_antisymm hle (String.not_lt.mp hlt))
    · rw [heq]
      exact hfirst d hd

end Tally

/-! ## The tally of a trail -/

/-- Adding the fixes of steps with different names, none of which the tally has, adds an entry for
each. -/
theorem mem_foldl_add_iff {steps : List Step} (hsteps : (steps.map Step.rule).Nodup) {t : Tally}
    (hnew : ∀ d ∈ t, d.1 ∉ steps.map Step.rule) {e : String × Nat} :
    e ∈ steps.foldl (fun t s => t.add s.rule s.fixes) t ↔
      e ∈ t ∨ ∃ step ∈ steps, e = (step.rule, step.fixes) := by
  induction steps generalizing t with
  | nil => simp
  | cons step steps ih =>
    obtain ⟨hfirst, hlater⟩ := List.nodup_cons.mp hsteps
    have hadd : ∀ {d}, d ∈ t.add step.rule step.fixes ↔ d = (step.rule, step.fixes) ∨ d ∈ t :=
      Tally.mem_add_iff fun d hd heq => hnew d hd (by simp [heq])
    have hnew' : ∀ d ∈ t.add step.rule step.fixes, d.1 ∉ steps.map Step.rule := by
      intro d hd
      rcases hadd.mp hd with rfl | hd
      · exact hfirst
      · exact fun hmem => hnew d hd (List.mem_cons_of_mem _ hmem)
    rw [List.foldl_cons, ih hlater hnew', hadd, List.exists_mem_cons_iff, or_assoc, or_left_comm]

/-- The tally of a trail without repeated names lists its steps, those without fixes left out. -/
theorem mem_trailTally_iff {steps : List Step} (hsteps : (steps.map Step.rule).Nodup)
    {e : String × Nat} :
    e ∈ trailTally steps ↔ ∃ step ∈ steps, 0 < step.fixes ∧ e = (step.rule, step.fixes) := by
  have hfilter : ((steps.filter (0 < ·.fixes)).map Step.rule).Nodup :=
    hsteps.sublist (List.filter_sublist.map _)
  unfold trailTally
  rw [mem_foldl_add_iff hfilter (fun d hd => absurd hd List.not_mem_nil)]
  simp [and_assoc]

theorem ordered_trailTally (steps : List Step) : (trailTally steps).Ordered := by
  have hfold : ∀ (ss : List Step) (t : Tally), t.Ordered →
      (ss.foldl (fun t s => t.add s.rule s.fixes) t).Ordered := by
    intro ss
    induction ss with
    | nil => exact fun t ht => ht
    | cons step ss ih => exact fun t ht => ih _ (ht.add step.rule step.fixes)
  exact hfold _ [] List.Pairwise.nil

theorem map_rule_trail (rs : List Rule) (cs : List Char) :
    (trail rs cs).map Step.rule = rs.map Rule.id := by
  induction rs generalizing cs with
  | nil => rfl
  | cons r rs ih => rw [trail, List.map_cons, List.map_cons, ih]

/-! ## The rules of a style -/

theorem nodup_ruleIds (s : Style) : (s.rules.map Rule.id).Nodup := by
  have hlookup : s.lookupRules.map Rule.id = Lookup.Kind.all.map Lookup.Kind.ruleId := rfl
  have hdowncast : s.downcastRules.map Rule.id = [] ∨
      s.downcastRules.map Rule.id = Downcast.Form.all.map Downcast.Form.ruleId := by
    unfold Style.downcastRules Downcast.rules
    split
    · exact .inl rfl
    · exact .inr rfl
  rw [Style.rules, List.map_append, hlookup]
  rcases hdowncast with h | h
  · rw [h]
    decide
  · rw [h]
    decide

/-- Fixing changes a text exactly if it makes a fix.  The fixes are the sum of those listed by rule;
the list has each rule once, no rule without a fix, and rules of the style only. -/
theorem changed_iff_fixed {s : Style} {f : Fixer} (hf : Fixer.ofStyle s = .ok f) (text : String) :
    ((f.fix text).text ≠ text ↔ 0 < (f.fix text).fixes) ∧
    (f.fix text).fixes = (f.fix text).byRule.total ∧
    (f.fix text).byRule.Ordered ∧
    ∀ rule n, (rule, n) ∈ (f.fix text).byRule → 0 < n ∧ rule ∈ f.ruleIds := by
  obtain ⟨hs, rfl⟩ := Fixer.ofStyle_eq_ok_iff.mp hf
  refine ⟨?_, (total_byRule _ text).symm, ordered_trailTally _, ?_⟩
  · rw [Ne, fix_text_eq_iff hs, Nat.pos_iff_ne_zero]
  · intro rule n hmem
    have hnames := map_rule_trail s.rules text.toList
    obtain ⟨step, hstep, hpos, heq⟩ := (mem_trailTally_iff (hnames ▸ nodup_ruleIds s)).mp hmem
    obtain ⟨rfl, rfl⟩ := Prod.mk.inj heq
    refine ⟨hpos, ?_⟩
    change step.rule ∈ s.rules.map Rule.id
    rw [← hnames]
    exact List.mem_map_of_mem hstep

/-- A style whose null literal has a parenthesis and a line end and ends in a cast, so that guarding
the return statement leaves a cast for the next rule. -/
def unsettledStyle : Style := ⟨"DictUtils", "Resource", "f(\nx = y as ItemData", ["ItemData"]⟩

theorem changed_iff_fixed_unsettled :
    Fixer.ofStyle unsettledStyle = .ok ⟨unsettledStyle.rules⟩ ∧
    ((Fixer.mk unsettledStyle.rules).fix "return int(d.get(\"k\",   7)) as ItemData").byRule =
      [("cast.assignment", 1), ("cast.return", 1), ("conversion.int", 1)] ∧
    ((Fixer.mk unsettledStyle.rules).fix "return int(d.get(\"k\",   7)) as ItemData").fixes = 3 ∧
    ((Fixer.mk unsettledStyle.rules).fix "return int(d.get(\"k\",   7)) as ItemData").text ≠
      "return int(d.get(\"k\",   7)) as ItemData" := by
  have hf : Fixer.ofStyle unsettledStyle = .ok ⟨unsettledStyle.rules⟩ := by decide +kernel
  have hrules :
    ((Fixer.mk unsettledStyle.rules).fix "return int(d.get(\"k\",   7)) as ItemData").byRule =
      [("cast.assignment", 1), ("cast.return", 1), ("conversion.int", 1)] := by decide +kernel
  obtain ⟨hchanged, htotal, -, -⟩ :=
    changed_iff_fixed hf "return int(d.get(\"k\",   7)) as ItemData"
  rw [hrules] at htotal
  refine ⟨hf, hrules, htotal, hchanged.mpr ?_⟩
  rw [htotal]
  decide

end CastGuard
