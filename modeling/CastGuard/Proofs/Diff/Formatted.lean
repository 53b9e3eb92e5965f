/-
# `CastGuard.Proofs.Diff.Formatted` — the hunks of a formatted diff

The section of a script has a header of its own, so the header of the formatted diff has to go.  It
is found by its end: the first line end that is followed by `@@`.  A line of a script may look like
that, but it stands in a hunk, behind the first header of a hunk, and `@@` at its start is shifted
by a sign.

What is relied on of the diff is `Formatted`: two header lines, and at least one hunk behind them.
The diff of two different texts is like that (`formatted_format`).
-/
import CastGuard.Proofs.Diff.Hunks
import CastGuard.Report

namespace CastGuard.Diff

open CastGuard.Text

/-- A formatted diff: a line that starts with `---`, one that starts with `+++`, and the hunks. -/
structure Formatted (body : List Char) (hs : List (Hunk String)) : Prop where
  changed : hs ≠ []
  text : ∃ old new, '\n' ∉ old ∧ '\n' ∉ new ∧
    body = "---".toList ++
      (old ++ '\n' :: ("+++".toList ++ (new ++ '\n' :: hs.flatMap Hunk.render)))

/-! ## The end of the header -/

theorem exists_render_eq_cons {hs : List (Hunk String)} (h : hs ≠ []) :
    ∃ cs, hs.flatMap Hunk.render = '@' :: '@' :: cs := by
  obtain ⟨first, others, rfl⟩ := List.exists_cons_of_ne_nil h
  exact ⟨_, by simp only [List.flatMap_cons, Hunk.render, Hunk.header, String.toList_append]; rfl⟩

theorem Formatted.withoutHeader_eq {body : List Char} {hs : List (Hunk String)}
    (h : Formatted body hs) : withoutHeader body = hs.flatMap Hunk.render := by
  obtain ⟨old, new, hold, hnew, rfl⟩ := h.text
  obtain ⟨cs, hcs⟩ := exists_render_eq_cons h.changed
  have hfirst : '\n' ∉ "---".toList ++ old := by simpa using hold
  have hsecond : '\n' ∉ "+++".toList ++ new := by simpa using hnew
  have hpart : "\n@@".toList = '\n' :: ['@', '@'] := by decide
  have hplus : "+++".toList = '+' :: ['+', '+'] := by decide
  have hfound : fromFirst? "\n@@".toList ("---".toList ++ (old ++ '\n' :: ("+++".toList ++
      (new ++ '\n' :: hs.flatMap Hunk.render)))) = some ('\n' :: hs.flatMap Hunk.render) := by
    rw [← List.append_assoc, hpart, fromFirst?_append_of_notMem hfirst]
    -- the first line end stands in front of the second header line
    rw [fromFirst?_of_not_after (by rw [hplus]; rfl), ← List.append_assoc,
      fromFirst?_append_of_notMem hsecond, hcs]
    have hafter : after? ['\n', '@', '@'] ('\n' :: '@' :: '@' :: cs) = some cs := rfl
    exact fromFirst?_of_after hafter
  rw [withoutHeader, hfound]
  rfl

/-! ## The end of the section -/

theorem getLast?_signed (sign : Char) (line : List Char) :
    (signed sign line).getLast? = some '\n' := by
  unfold signed
  split
  · next h => rw [List.getLast?_cons, h, Option.getD_some]
  · rw [List.getLast?_cons, List.getLast?_append,
      show endMark.toList.getLast? = some '\n' by decide]
    rfl

theorem getLast?_renderLine (l : HunkLine String) : l.render.getLast? = some '\n' := by
  cases l with
  | context s =>
    by_cases hs : s = "\n"
    · rw [HunkLine.render, if_pos hs, hs]
      decide
    · rw [HunkLine.render, if_neg hs]
      exact getLast?_signed ..
  | deleted s => exact getLast?_signed ..
  | inserted s => exact getLast?_signed ..

theorem getLast?_flatMap {α : Type} {f : α → List Char} {as : List α} (hne : as ≠ [])
    (h : ∀ a ∈ as, (f a).getLast? = some '\n') : (as.flatMap f).getLast? = some '\n' := by
  obtain ⟨front, a, rfl⟩ := (List.eq_nil_or_concat as).resolve_left hne
  rw [List.concat_eq_append, List.flatMap_append, List.flatMap_singleton, List.getLast?_append,
    h a (by simp)]
  rfl

theorem Hunk.getLast?_render (h : Hunk String) : h.render.getLast? = some '\n' := by
  have hheader : h.header.toList.getLast? = some '\n' := by
    rw [Hunk.header, String.toList_append, List.getLast?_append,
      show " @@\n".toList.getLast? = some '\n' by decide]
    rfl
  rw [Hunk.render, List.getLast?_append]
  obtain hnil | hne := Decidable.em (h.lines = [])
  · simp [hnil, hheader]
  · rw [getLast?_flatMap hne fun l _ => getLast?_renderLine l]
    rfl

/-! ## The section of a script -/

theorem join_lines (text : String) : String.join (lines text.toList) = text := by
  rw [← String.toList_inj, String.toList_join, lines, List.flatMap_map]
  simp only [String.toList_ofList, List.flatMap_id']
  exact flatten_linesOf text.toList

theorem formatted_format {before after : String} (hne : before ≠ after) :
    Formatted (format before.toList after.toList)
      (hunks (lines before.toList) (lines after.toList)) := by
  refine ⟨fun hnone => hne ?_, " original".toList, " modified".toList, by decide, by decide, ?_⟩
  · -- without hunks, applying them changes nothing
    have happly := applyHunks_hunks (lines before.toList) (lines after.toList)
    rw [hnone] at happly
    have hlines : lines before.toList = lines after.toList := by
      simpa [applyHunks, applyFrom] using happly
    rw [← join_lines before, hlines, join_lines]
  · rw [format, show formatHeader.toList = "---".toList ++ (" original".toList ++ '\n' ::
      ("+++".toList ++ (" modified".toList ++ ['\n']))) by decide]
    simp

/-- Whatever the formatted diff, with the header of a script in place of its own it is that header
and the hunks, and nothing has to be put behind them. -/
theorem Formatted.lineEnded_eq {body : List Char} {hs : List (Hunk String)} (h : Formatted body hs)
    (path : String) :
    lineEnded ((patchHeader path).toList ++ withoutHeader body) =
      (patchHeader path).toList ++ hs.flatMap Hunk.render := by
  have hend : ((patchHeader path).toList ++ hs.flatMap Hunk.render).getLast? = some '\n' := by
    rw [List.getLast?_append, getLast?_flatMap h.changed fun hunk _ => hunk.getLast?_render]
    rfl
  rw [h.withoutHeader_eq, lineEnded, if_pos hend]

theorem Formatted.filePatch_eq {path before after : String} {hs : List (Hunk String)}
    (h : Formatted (format before.toList after.toList) hs) (hne : before ≠ after) :
    (filePatch path before after).toList = (patchHeader path).toList ++ hs.flatMap Hunk.render := by
  rw [filePatch, if_neg hne, String.toList_ofList, h.lineEnded_eq]

end CastGuard.Diff
