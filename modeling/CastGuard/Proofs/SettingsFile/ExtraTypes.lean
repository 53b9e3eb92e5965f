/-
# `CastGuard.Proofs.SettingsFile.ExtraTypes` — the types that a settings file adds

A settings file lists further types whose casts are guarded.  They are added to the usual ones in
their order and one by one, and what the list has already is not added again.  So the types of a run
are the usual ones and behind them each new one where the file names it first (`foldl_addType`).

The order in which a file names its types, and how often it names each, matters for the list but for
nothing that is done with it: the style is sound or not, and texts are fixed alike
(`extra_types_merge`).
-/
import CastGuard.SettingsFile
import CastGuard.Proofs.Downcast.TypeOrder
import Mathlib.Data.List.Nodup

namespace CastGuard.Style

/-! ## Adding types -/

variable {known extra : List String} {t u : String}

theorem addType_of_mem (h : t ∈ known) : addType known t = known := if_pos h

theorem addType_of_notMem (h : t ∉ known) : addType known t = known ++ [t] := if_neg h

theorem mem_addType : u ∈ addType known t ↔ u ∈ known ∨ u = t := by
  by_cases ht : t ∈ known
  · rw [addType_of_mem ht]
    exact ⟨.inl, fun h => h.elim id fun heq => heq ▸ ht⟩
  · rw [addType_of_notMem ht, List.mem_append, List.mem_singleton]

theorem nodup_addType (h : known.Nodup) : (addType known t).Nodup := by
  by_cases ht : t ∈ known
  · rwa [addType_of_mem ht]
  · rw [addType_of_notMem ht, ← List.concat_eq_append]
    exact List.Nodup.concat ht h

theorem nodup_foldl_addType (h : known.Nodup) : (extra.foldl addType known).Nodup := by
  induction extra generalizing known with
  | nil => exact h
  | cons t extra ih => exact ih (nodup_addType h)

theorem mem_foldl_addType : u ∈ extra.foldl addType known ↔ u ∈ known ∨ u ∈ extra := by
  induction extra generalizing known with
  | nil => simp
  | cons t extra ih => rw [List.foldl_cons, ih, mem_addType, List.mem_cons, or_assoc]

/-- The types added are the new ones, each at its first occurrence. -/
theorem foldl_addType (known extra : List String) :
    extra.foldl addType known = known ++ (extra.filter (· ∉ known)).eraseDups := by
  induction extra generalizing known with
  | nil => simp
  | cons t extra ih =>
    rw [List.foldl_cons, ih]
    by_cases ht : t ∈ known
    · rw [addType_of_mem ht, List.filter_cons_of_neg (by simpa using ht)]
    · rw [addType_of_notMem ht, List.filter_cons_of_pos (by simpa using ht), List.eraseDups_cons,
        List.filter_filter, List.append_assoc]
      -- what is new behind `t` is what is new and not `t`
      have hnew : ∀ u, decide (u ∉ known ++ [t]) = ((!u == t) && decide (u ∉ known)) := by
        intro u
        rw [Bool.eq_iff_iff]
        simp [and_comm]
      simp only [hnew]
      rfl

theorem foldl_addType_of_subset (h : ∀ t ∈ extra, t ∈ known) :
    extra.foldl addType known = known := by
  have hnone : extra.filter (· ∉ known) = [] := by
    rw [List.filter_eq_nil_iff]
    simpa using h
  rw [foldl_addType, hnone]
  exact List.append_nil known

theorem nodup_builtinTypes : builtinTypes.Nodup := by decide

/-! ## Styles with further types -/

theorem withTypes_append (s : Style) (extra later : List String) :
    s.withTypes (extra ++ later) = (s.withTypes extra).withTypes later := by
  rw [withTypes, List.foldl_append]
  rfl

theorem withTypes_withTypes (s : Style) (extra : List String) :
    (s.withTypes extra).withTypes extra = s.withTypes extra := by
  have hknown : ∀ t ∈ extra, t ∈ (s.withTypes extra).types :=
    fun t ht => mem_foldl_addType.mpr (.inr ht)
  rw [withTypes, foldl_addType_of_subset hknown]

theorem akin_withTypes (s : Style) {extra extra' : List String}
    (hsame : ∀ t, t ∈ extra ↔ t ∈ extra') :
    (s.withTypes extra).Akin (s.withTypes extra') := by
  refine ⟨rfl, rfl, rfl, fun t => ?_⟩
  change t ∈ extra.foldl addType s.types ↔ t ∈ extra'.foldl addType s.types
  rw [mem_foldl_addType, mem_foldl_addType, hsame]

end CastGuard.Style

namespace CastGuard.SettingsFile

/-- The types of a run are the usual ones, and behind them those that the file adds to them, each
where it is first named.  Types may be added in portions, and nothing happens if they are added once
more.  A file that names the same types in another order, or some of them more often, is accepted if
this one is, and then every text is fixed alike. -/
theorem extra_types_merge (file : SettingsFile) (projectRoot : String) (dryRun wantsPatch : Bool) :
    let merged := fun file : SettingsFile => (file.runSettings projectRoot dryRun wantsPatch).style
    ((merged file).types =
        Style.builtinTypes ++ (file.extraTypes.filter (· ∉ Style.builtinTypes)).eraseDups ∧
      (merged file).types.Nodup) ∧
    (∀ (s : Style) (extra later : List String),
      s.withTypes (extra ++ later) = (s.withTypes extra).withTypes later ∧
        (s.withTypes extra).withTypes extra = s.withTypes extra) ∧
    ∀ extra, (∀ t, t ∈ extra ↔ t ∈ file.extraTypes) →
      ((merged file).Sound ↔ (merged { file with extraTypes := extra }).Sound) ∧
        ∀ f, Fixer.ofStyle (merged file) = .ok f →
          ∃ f', Fixer.ofStyle (merged { file with extraTypes := extra }) = .ok f' ∧
            ∀ text, f.fix text = f'.fix text := by
  intro merged
  refine ⟨⟨Style.foldl_addType _ _, Style.nodup_foldl_addType Style.nodup_builtinTypes⟩,
    fun s extra later => ⟨s.withTypes_append extra later, s.withTypes_withTypes extra⟩, ?_⟩
  intro extra hsame
  have hakin : (merged file).Akin (merged { file with extraTypes := extra }) :=
    Style.akin_withTypes _ fun t => (hsame t).symm
  refine ⟨hakin.sound_iff, fun f hf => ?_⟩
  obtain ⟨hsound, rfl⟩ := Fixer.ofStyle_eq_ok_iff.mp hf
  exact ⟨_, Fixer.ofStyle_eq_ok_iff.mpr ⟨hakin.sound_iff.mp hsound, rfl⟩, hakin.fix hsound⟩

/-- Two files that name two new types and a usual one in different orders. -/
theorem extra_types_merge_quests :
    let file := { SettingsFile.standard with
      extraTypes := ["QuestData", "ItemData", "AudioStream"] }
    let other := { file with extraTypes := ["AudioStream", "QuestData", "AudioStream", "ItemData"] }
    (file.runSettings "game" true true).style.types =
      Style.builtinTypes ++ ["QuestData", "AudioStream"] ∧
      (other.runSettings "game" true true).style.types =
        Style.builtinTypes ++ ["AudioStream", "QuestData"] ∧
      ∃ f f', Fixer.ofStyle (file.runSettings "game" true true).style = .ok f ∧
        Fixer.ofStyle (other.runSettings "game" true true).style = .ok f' ∧ f ≠ f' ∧
        (f.fix "return x as QuestData").text =
          ("var _return_res: Resource = x\n" ++
            "return _return_res if _return_res is QuestData else null") ∧
        ∀ text, f.fix text = f'.fix text := by
  intro file other
  obtain ⟨⟨htypes, -⟩, -, horder⟩ := extra_types_merge file "game" true true
  obtain ⟨⟨hotherTypes, -⟩, -, -⟩ := extra_types_merge other "game" true true
  have hsame : ∀ t, t ∈ ["AudioStream", "QuestData", "AudioStream", "ItemData"] ↔
      t ∈ file.extraTypes := by
    intro t
    simp only [file, List.mem_cons, List.not_mem_nil, or_false]
    tauto
  have hsound : (file.runSettings "game" true true).style.Sound := by decide +kernel
  obtain ⟨-, hfix⟩ := horder _ hsame
  obtain ⟨f', hf', hall⟩ := hfix _ (Fixer.ofStyle_eq_ok_iff.mpr ⟨hsound, rfl⟩)
  refine ⟨htypes.trans (by decide +kernel), hotherTypes.trans (by decide +kernel), _, f',
    Fixer.ofStyle_eq_ok_iff.mpr ⟨hsound, rfl⟩, hf', ?_, by decide +kernel, hall⟩
  obtain ⟨-, rfl⟩ := Fixer.ofStyle_eq_ok_iff.mp hf'
  decide +kernel

end CastGuard.SettingsFile
