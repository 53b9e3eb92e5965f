/-
# `CastGuard.Proofs.Diff.Reading` — patches are read back as they were written

A reader for patches, defined without looking at how they are made.  A patch is a list of sections.
A section has a header of three lines, which give the path, and at least one hunk; a hunk has a
header with its places and sizes, and as many lines as the sizes say.  Since lines are counted, it
does not matter what a line of the script looks like: its sign comes first, and the mark behind a
last line without a line end starts with a character that is no sign.

`readPatch_written` says that sections which were written are read back.  It asks that paths have no
line end in them, and of hunks that their sizes are those of their lines and that their lines are
lines (`Hunk.Readable`).  The hunks between two texts are like that (`readable_hunks`).
-/
import CastGuard.Proofs.Diff.Formatted
import CastGuard.Proofs.Text.Runs

namespace CastGuard.Diff

open CastGuard.Text

/-! ## The reader -/

/-- Marks the line before it as having no line end. -/
def unendedMark : List Char := "\\ No newline at end of file\n".toList

def HunkLine.ofSign? (sign : Char) (line : List Char) : Option (HunkLine String) :=
  if sign = ' ' then some (.context (String.ofList line))
  else if sign = '-' then some (.deleted (String.ofList line))
  else if sign = '+' then some (.inserted (String.ofList line))
  else none

/-- Reads one line of a hunk.  A line without a sign is an empty line that is context. -/
def readLine? : List Char → Option (HunkLine String × List Char)
  | [] => none
  | c :: cs =>
    if c = '\n' then some (.context "\n", cs)
    else match cs.dropWhile (· != '\n') with
      | [] => none
      | _ :: rest =>
        let line := cs.takeWhile (· != '\n')
        match after? unendedMark rest with
        | some rest => (HunkLine.ofSign? c line).map (·, rest)
        | none => (HunkLine.ofSign? c (line ++ ['\n'])).map (·, rest)

/-- The numbers of old and of new lines that a line of a hunk counts for. -/
def HunkLine.counts {α : Type} (l : HunkLine α) : Nat × Nat :=
  ((l.on .delete).length, (l.on .insert).length)

theorem HunkLine.counts_pos {α : Type} (l : HunkLine α) : 0 < l.counts.1 + l.counts.2 := by
  cases l <;> simp [counts, on]

/-- Reads lines of a hunk until there are as many old and new ones as there should be. -/
def readLines? (old new : Nat) (cs : List Char) : Option (List (HunkLine String) × List Char) :=
  if old = 0 ∧ new = 0 then some ([], cs)
  else match readLine? cs with
    | none => none
    | some (l, rest) =>
      if _h : l.counts.1 ≤ old ∧ l.counts.2 ≤ new then
        (readLines? (old - l.counts.1) (new - l.counts.2) rest).map fun (ls, rest) =>
          (l :: ls, rest)
      else none
termination_by old + new
decreasing_by
  have := l.counts_pos
  omega

def readNumber? (cs : List Char) : Option (Nat × List Char) :=
  (run? Char.isDigit cs).map fun (digits, rest) => (Nat.ofDigitChars 10 digits 0, rest)

/-- The stretch of a place that was read: an empty one stands behind its line, any other one starts
with it. -/
def stretchOf? (first size : Nat) : Option (Nat × Nat) :=
  if size = 0 then some (first, 0) else if first = 0 then none else some (first - 1, size)

/-- Reads the place of a stretch.  A size that is left out is one. -/
def readPlace? (cs : List Char) : Option ((Nat × Nat) × List Char) := do
  let (first, rest) ← readNumber? cs
  match after? [','] rest with
  | none => return (← stretchOf? first 1, rest)
  | some rest =>
    let (size, rest) ← readNumber? rest
    return (← stretchOf? first size, rest)

def readHunk? (cs : List Char) : Option (Hunk String × List Char) := do
  let rest ← after? "@@ -".toList cs
  let ((oldStart, oldSize), rest) ← readPlace? rest
  let rest ← after? " +".toList rest
  let ((newStart, newSize), rest) ← readPlace? rest
  let rest ← after? " @@\n".toList rest
  let (lines, rest) ← readLines? oldSize newSize rest
  return (⟨oldStart, oldSize, newStart, newSize, lines⟩, rest)

def readHunks? (cs : List Char) : Option (List (Hunk String) × List Char) :=
  match readHunk? cs with
  | none => some ([], cs)
  | some (h, rest) =>
    if _h : rest.length < cs.length then
      (readHunks? rest).map fun (hs, rest) => (h :: hs, rest)
    else none
termination_by cs.length

structure Section where
  path : String
  hunks : List (Hunk String)
  deriving DecidableEq, Repr

def readRest? (cs : List Char) : Option (List Char × List Char) :=
  match cs.dropWhile (· != '\n') with
  | [] => none
  | _ :: rest => some (cs.takeWhile (· != '\n'), rest)

/-- Reads a section.  The path stands in all three lines of its header; the second one gives it,
since in the first it is not clear where it ends. -/
def readSection? (cs : List Char) : Option (Section × List Char) := do
  let rest ← after? "diff --git ".toList cs
  let (both, rest) ← readRest? rest
  let rest ← after? "--- a/".toList rest
  let (path, rest) ← readRest? rest
  let rest ← after? "+++ b/".toList rest
  let (again, rest) ← readRest? rest
  let (hunks, rest) ← readHunks? rest
  if both = "a/".toList ++ path ++ " b/".toList ++ path ∧ again = path ∧ hunks ≠ [] then
    return (⟨String.ofList path, hunks⟩, rest)
  else none

def readPatch? (cs : List Char) : Option (List Section) :=
  if cs = [] then some []
  else match readSection? cs with
    | none => none
    | some (s, rest) =>
      if _h : rest.length < cs.length then (readPatch? rest).map (s :: ·) else none
termination_by cs.length

def Section.written (s : Section) : List Char :=
  (patchHeader s.path).toList ++ s.hunks.flatMap Hunk.render

def Section.apply (s : Section) (before : String) : Option String :=
  (applyHunks s.hunks (lines before.toList)).map String.join

/-! ## Lines -/

/-- A line of a text: it is not empty and has no line end but perhaps its last character. -/
def IsLine (cs : List Char) : Prop :=
  ∃ body, '\n' ∉ body ∧ (cs = body ++ ['\n'] ∨ cs = body ∧ body ≠ [])

theorem isLine_of_mem_linesOf {cs l : List Char} (h : l ∈ linesOf cs) : IsLine l := by
  induction cs generalizing l with
  | nil => exact absurd h List.not_mem_nil
  | cons c cs ih =>
    unfold linesOf at h
    split at h
    · next hc =>
      rcases List.mem_cons.mp h with rfl | h
      · exact ⟨[], List.not_mem_nil, .inl (by rw [hc]; rfl)⟩
      · exact ih h
    · next hc =>
      split at h
      · obtain rfl := List.mem_singleton.mp h
        exact ⟨[c], by simpa using Ne.symm hc, .inr ⟨rfl, by simp⟩⟩
      · next l' ls heq =>
        rcases List.mem_cons.mp h with rfl | h
        · obtain ⟨body, hbody, hl'⟩ := ih (l := l') (by simp [heq])
          refine ⟨c :: body, by simp [hbody, Ne.symm hc], ?_⟩
          rcases hl' with rfl | ⟨rfl, -⟩
          · exact .inl rfl
          · exact .inr ⟨rfl, by simp⟩
        · exact ih (by simp [heq, h])

def HunkLine.text : HunkLine String → List Char
  | .context l => l.toList
  | .deleted l => l.toList
  | .inserted l => l.toList

theorem takeWhile_line {body rest : List Char} (h : '\n' ∉ body) :
    (body ++ '\n' :: rest).takeWhile (· != '\n') = body :=
  takeWhile_append_stop (fun c hc => bne_iff_ne.mpr fun heq => h (heq ▸ hc)) (by simp)

theorem dropWhile_line {body rest : List Char} (h : '\n' ∉ body) :
    (body ++ '\n' :: rest).dropWhile (· != '\n') = '\n' :: rest :=
  dropWhile_append_stop (fun c hc => bne_iff_ne.mpr fun heq => h (heq ▸ hc)) (by simp)

theorem endMark_eq : endMark.toList = '\n' :: unendedMark := by decide

/-- A line behind its sign is read back; what follows must not look like the mark of a last line. -/
theorem readLine?_signed {sign : Char} {line rest : List Char} {l : HunkLine String}
    (hsign : sign ≠ '\n') (hline : IsLine line) (hl : HunkLine.ofSign? sign line = some l)
    (hrest : rest.head? ≠ some '\\') : readLine? (signed sign line ++ rest) = some (l, rest) := by
  have hmark : after? unendedMark rest = none := by
    rw [Option.eq_none_iff_forall_ne_some]
    intro rest' hafter
    rw [after?_eq_some_iff.mp hafter] at hrest
    exact hrest rfl
  obtain ⟨body, hbody, rfl | ⟨rfl, hne⟩⟩ := hline
  · have hsigned : signed sign (body ++ ['\n']) ++ rest = sign :: (body ++ '\n' :: rest) := by
      simp [signed]
    rw [hsigned, readLine?, if_neg hsign, dropWhile_line hbody, takeWhile_line hbody]
    simp only [hmark, hl, Option.map_some]
  · have hlast : line.getLast? ≠ some '\n' := fun h => hbody (List.mem_of_getLast? h)
    have hsigned : signed sign line ++ rest = sign :: (line ++ '\n' :: (unendedMark ++ rest)) := by
      simp only [signed, if_neg hlast, endMark_eq, List.cons_append, List.append_assoc]
    rw [hsigned, readLine?, if_neg hsign, dropWhile_line hbody, takeWhile_line hbody]
    simp only [after?_append, hl, Option.map_some]

theorem readLine?_render {l : HunkLine String} {rest : List Char} (hl : IsLine l.text)
    (hrest : rest.head? ≠ some '\\') : readLine? (l.render ++ rest) = some (l, rest) := by
  cases l with
  | context s =>
    by_cases hs : s = "\n"
    · subst hs
      simp [HunkLine.render, readLine?]
    · simp only [HunkLine.render, if_neg hs]
      exact readLine?_signed (by decide) hl (by simp [HunkLine.ofSign?]) hrest
  | deleted s => exact readLine?_signed (by decide) hl (by simp [HunkLine.ofSign?]) hrest
  | inserted s => exact readLine?_signed (by decide) hl (by simp [HunkLine.ofSign?]) hrest

theorem head?_render (l : HunkLine String) : ∃ c cs, l.render = c :: cs ∧ c ≠ '\\' := by
  cases l with
  | context s =>
    by_cases hs : s = "\n"
    · exact ⟨'\n', [], by simp [HunkLine.render, hs], by decide⟩
    · exact ⟨' ', _, by simp only [HunkLine.render, if_neg hs]; rfl, by decide⟩
  | deleted s => exact ⟨'-', _, rfl, by decide⟩
  | inserted s => exact ⟨'+', _, rfl, by decide⟩

theorem readLines?_render {ls : List (HunkLine String)} {rest : List Char}
    (hls : ∀ l ∈ ls, IsLine l.text) (hrest : rest.head? ≠ some '\\') :
    readLines? (linesOn .delete ls).length (linesOn .insert ls).length
      (ls.flatMap HunkLine.render ++ rest) = some (ls, rest) := by
  induction ls with
  | nil =>
    rw [readLines?]
    simp
  | cons l ls ih =>
    obtain ⟨hl, hls⟩ := List.forall_mem_cons.mp hls
    have hnext : (ls.flatMap HunkLine.render ++ rest).head? ≠ some '\\' := by
      cases ls with
      | nil => exact hrest
      | cons l' ls' =>
        obtain ⟨c, cs, heq, hc⟩ := head?_render l'
        simpa [heq] using hc
    have hcounts : (linesOn .delete (l :: ls)).length = l.counts.1 + (linesOn .delete ls).length ∧
        (linesOn .insert (l :: ls)).length = l.counts.2 + (linesOn .insert ls).length := by
      simp [HunkLine.counts]
    have hpos := l.counts_pos
    rw [hcounts.1, hcounts.2, readLines?, if_neg (by omega), List.flatMap_cons, List.append_assoc,
      readLine?_render hl hnext]
    simp only
    rw [dif_pos ⟨by omega, by omega⟩, Nat.add_sub_cancel_left, Nat.add_sub_cancel_left, ih hls,
      Option.map_some]

/-! ## Headers of hunks -/

theorem readNumber?_toString (n : Nat) {rest : List Char}
    (hrest : ∀ c, rest.head? = some c → c.isDigit = false) :
    readNumber? ((toString n).toList ++ rest) = some (n, rest) := by
  have hdigits : (toString n).toList = Nat.toDigits 10 n := Nat.toList_repr
  have hall : ∀ c ∈ Nat.toDigits 10 n, c.isDigit = true := fun c hc =>
    Nat.isDigit_of_mem_toDigits (by decide) (by decide) hc
  have hrun : run? Char.isDigit (Nat.toDigits 10 n ++ rest) = some (Nat.toDigits 10 n, rest) := by
    refine run?_eq_some_iff.mpr ⟨Nat.toDigits_ne_nil, ?_, ?_⟩
    · rw [takeWhile_append_stop hall hrest]
    · rw [dropWhile_append_stop hall hrest]
  rw [hdigits, readNumber?, hrun]
  exact congrArg (fun k => some (k, rest)) Nat.ofDigitChars_ten_toDigits

theorem stretchOf?_first (start size : Nat) :
    stretchOf? (if size = 0 then start else start + 1) size = some (start, size) := by
  unfold stretchOf?
  by_cases hsize : size = 0 <;> simp [hsize]

theorem readPlace?_place (start size : Nat) (rest : List Char) :
    readPlace? ((place start size).toList ++ ' ' :: rest) = some ((start, size), ' ' :: rest) := by
  have hfirst := stretchOf?_first start size
  have hblank : ∀ c, (' ' :: rest).head? = some c → c.isDigit = false := by
    intro c hc
    obtain rfl : ' ' = c := by simpa using hc
    decide
  unfold place
  simp only
  generalize (if size = 0 then start else start + 1) = first at hfirst ⊢
  by_cases hsize : size = 1
  · subst hsize
    rw [if_pos rfl, readPlace?, readNumber?_toString first hblank]
    simp [after?, hfirst]
  · have htext : (toString first ++ "," ++ toString size).toList ++ ' ' :: rest =
        (toString first).toList ++ ',' :: ((toString size).toList ++ ' ' :: rest) := by
      simp
    have hcomma : ∀ c, (',' :: ((toString size).toList ++ ' ' :: rest)).head? = some c →
        c.isDigit = false := by
      intro c hc
      obtain rfl : ',' = c := by simpa using hc
      decide
    rw [if_neg hsize, htext, readPlace?, readNumber?_toString first hcomma]
    simp only [Option.bind_eq_bind, Option.bind_some, after?, if_true]
    rw [readNumber?_toString size hblank]
    simp [hfirst]

/-! ## Hunks and sections -/

/-- A hunk whose sizes are those of its lines, and whose lines are lines. -/
structure Hunk.Readable (h : Hunk String) : Prop where
  oldSize : (linesOn .delete h.lines).length = h.oldSize
  newSize : (linesOn .insert h.lines).length = h.newSize
  lines : ∀ l ∈ h.lines, IsLine l.text

theorem readHunk?_render {h : Hunk String} {rest : List Char} (hh : h.Readable)
    (hrest : rest.head? ≠ some '\\') : readHunk? (h.render ++ rest) = some (h, rest) := by
  have hlines : readLines? h.oldSize h.newSize (h.lines.flatMap HunkLine.render ++ rest) =
      some (h.lines, rest) := by
    rw [← hh.oldSize, ← hh.newSize]
    exact readLines?_render hh.lines hrest
  have hnew := readPlace?_place h.newStart h.newSize
    ("@@\n".toList ++ (h.lines.flatMap HunkLine.render ++ rest))
  have hold := readPlace?_place h.oldStart h.oldSize ('+' :: ((place h.newStart h.newSize).toList ++
    ' ' :: ("@@\n".toList ++ (h.lines.flatMap HunkLine.render ++ rest))))
  have htext : h.render ++ rest = "@@ -".toList ++ ((place h.oldStart h.oldSize).toList ++
      ' ' :: '+' :: ((place h.newStart h.newSize).toList ++
        ' ' :: ("@@\n".toList ++ (h.lines.flatMap HunkLine.render ++ rest)))) := by
    simp [Hunk.render, Hunk.header]
  have hplus : ∀ cs, after? " +".toList (' ' :: '+' :: cs) = some cs := fun cs => rfl
  have hclose : ∀ cs, after? " @@\n".toList (' ' :: ("@@\n".toList ++ cs)) = some cs :=
    fun cs => rfl
  simp only [htext, readHunk?, Option.bind_eq_bind, after?_append, Option.bind_some, hold, hplus,
    hnew, hclose, hlines]
  rfl

theorem readHunk?_eq_none {cs : List Char} (h : cs.head? ≠ some '@') : readHunk? cs = none := by
  have hafter : after? "@@ -".toList cs = none := by
    rw [Option.eq_none_iff_forall_ne_some]
    intro rest hrest
    rw [after?_eq_some_iff.mp hrest] at h
    exact h rfl
  rw [readHunk?, hafter]
  rfl

theorem readHunks?_render {hs : List (Hunk String)} {rest : List Char}
    (hhs : ∀ h ∈ hs, h.Readable) (hmark : rest.head? ≠ some '\\') (hat : rest.head? ≠ some '@') :
    readHunks? (hs.flatMap Hunk.render ++ rest) = some (hs, rest) := by
  induction hs with
  | nil =>
    rw [readHunks?, List.flatMap_nil, List.nil_append, readHunk?_eq_none hat]
  | cons h hs ih =>
    obtain ⟨hh, hhs⟩ := List.forall_mem_cons.mp hhs
    have hnext : (hs.flatMap Hunk.render ++ rest).head? ≠ some '\\' := by
      cases hs with
      | nil => exact hmark
      | cons h' hs' => simp [Hunk.render, Hunk.header]
    have hshorter : (hs.flatMap Hunk.render ++ rest).length <
        (h.render ++ (hs.flatMap Hunk.render ++ rest)).length := by
      simp [Hunk.render, Hunk.header]
      omega
    rw [readHunks?, List.flatMap_cons, List.append_assoc, readHunk?_render hh hnext]
    simp only
    rw [dif_pos hshorter, ih hhs, Option.map_some]

theorem readRest?_line {line rest : List Char} (h : '\n' ∉ line) :
    readRest? (line ++ '\n' :: rest) = some (line, rest) := by
  rw [readRest?, dropWhile_line h, takeWhile_line h]

structure Section.Readable (s : Section) : Prop where
  path : '\n' ∉ s.path.toList
  changed : s.hunks ≠ []
  hunks : ∀ h ∈ s.hunks, h.Readable

theorem toList_patchHeader (path : String) :
    (patchHeader path).toList = "diff --git ".toList ++
      (("a/".toList ++ path.toList ++ " b/".toList ++ path.toList) ++ '\n' ::
        ("--- a/".toList ++
          (path.toList ++ '\n' :: ("+++ b/".toList ++ (path.toList ++ ['\n']))))) := by
  -- the fixed pieces are passed on as they are, since opening them takes long
  have hpieces : ∀ (first sep old new last p : String) (opening a b c : List Char),
      first.toList = opening ++ a → old.toList = ['\n'] ++ b → new.toList = ['\n'] ++ c →
      last.toList = ['\n'] →
      (first ++ p ++ sep ++ p ++ old ++ p ++ new ++ p ++ last).toList =
        opening ++ ((a ++ p.toList ++ sep.toList ++ p.toList) ++ '\n' ::
          (b ++ (p.toList ++ '\n' :: (c ++ (p.toList ++ ['\n']))))) := by
    intro first sep old new last p opening a b c hfirst hold hnew hlast
    simp [hfirst, hold, hnew, hlast]
  exact hpieces _ _ _ _ _ _ _ _ _ _ (by decide) (by decide) (by decide) (by decide)

theorem exists_written_eq_cons (s : Section) : ∃ cs, s.written = 'd' :: cs := by
  rw [Section.written, toList_patchHeader]
  exact ⟨_, rfl⟩

theorem readSection?_written {s : Section} {rest : List Char} (hs : s.Readable)
    (hmark : rest.head? ≠ some '\\') (hat : rest.head? ≠ some '@') :
    readSection? (s.written ++ rest) = some (s, rest) := by
  have hpath := hs.path
  have hboth : '\n' ∉ "a/".toList ++ s.path.toList ++ " b/".toList ++ s.path.toList := by
    have ha : '\n' ∉ "a/".toList := by decide
    have hb : '\n' ∉ " b/".toList := by decide
    simp only [List.mem_append, not_or]
    exact ⟨⟨⟨ha, hpath⟩, hb⟩, hpath⟩
  have htext : s.written ++ rest = "diff --git ".toList ++
      (("a/".toList ++ s.path.toList ++ " b/".toList ++ s.path.toList) ++ '\n' ::
        ("--- a/".toList ++ (s.path.toList ++ '\n' :: ("+++ b/".toList ++ (s.path.toList ++ '\n' ::
          (s.hunks.flatMap Hunk.render ++ rest)))))) := by
    have hjoined : ∀ opening both old new p body : List Char,
        opening ++ (both ++ '\n' :: (old ++ (p ++ '\n' :: (new ++ (p ++ ['\n']))))) ++
          body ++ rest =
          opening ++ (both ++
            '\n' :: (old ++ (p ++ '\n' :: (new ++ (p ++ '\n' :: (body ++ rest)))))) := by
      simp
    rw [Section.written, toList_patchHeader]
    exact hjoined _ _ _ _ _ _
  simp only [htext, readSection?, Option.bind_eq_bind, after?_append, Option.bind_some,
    readRest?_line hboth, readRest?_line hpath, readHunks?_render hs.hunks hmark hat]
  rw [if_pos ⟨trivial, trivial, hs.changed⟩, String.ofList_toList]
  rfl

theorem readPatch?_written {ss : List Section} (hss : ∀ s ∈ ss, s.Readable) :
    readPatch? (ss.flatMap Section.written) = some ss := by
  induction ss with
  | nil =>
    rw [readPatch?]
    rfl
  | cons s ss ih =>
    obtain ⟨hs, hss⟩ := List.forall_mem_cons.mp hss
    have hhead : (ss.flatMap Section.written).head? = none ∨
        (ss.flatMap Section.written).head? = some 'd' := by
      cases ss with
      | nil => exact .inl rfl
      | cons s' ss' =>
        obtain ⟨cs, hcs⟩ := exists_written_eq_cons s'
        exact .inr (by simp [hcs])
    obtain ⟨cs, hcs⟩ := exists_written_eq_cons s
    have hne : s.written ++ ss.flatMap Section.written ≠ [] := by simp [hcs]
    have hshorter : (ss.flatMap Section.written).length <
        (s.written ++ ss.flatMap Section.written).length := by
      rw [hcs, List.length_append, List.length_cons]
      omega
    rw [List.flatMap_cons, readPatch?, if_neg hne, readSection?_written hs]
    · simp only
      rw [dif_pos hshorter, ih hss, Option.map_some]
    · rcases hhead with h | h <;> simp [h]
    · rcases hhead with h | h <;> simp [h]

/-! ## The section of a changed text -/

theorem isLine_of_mem_lines {cs : List Char} {l : String} (h : l ∈ lines cs) : IsLine l.toList := by
  obtain ⟨line, hline, rfl⟩ := List.mem_map.mp h
  rw [String.toList_ofList]
  exact isLine_of_mem_linesOf hline

/-- Every line of a hunk that stands in two lists is an element of one of them. -/
theorem Tiled.mem_lines {α : Type} {s : Sides α} {i j : Nat} {hs : List (Hunk α)}
    (h : Tiled s i j hs) {hunk : Hunk α} (hhunk : hunk ∈ hs) (side : Change) {x : α}
    (hx : x ∈ linesOn side hunk.lines) : x ∈ s.old ∨ x ∈ s.new := by
  induction h with
  | rest equal => exact absurd hhunk List.not_mem_nil
  | hunk kept old new oldStart newStart oldSize newSize next ih =>
    rcases List.mem_cons.mp hhunk with rfl | hhunk
    · cases side with
      | delete => exact .inl (List.mem_of_mem_drop (by rw [old]; simp [hx]))
      | insert => exact .inr (List.mem_of_mem_drop (by rw [new]; simp [hx]))
    · exact ih hhunk

theorem Tiled.sizes {α : Type} {s : Sides α} {i j : Nat} {hs : List (Hunk α)} (h : Tiled s i j hs)
    {hunk : Hunk α} (hhunk : hunk ∈ hs) :
    (linesOn .delete hunk.lines).length = hunk.oldSize ∧
      (linesOn .insert hunk.lines).length = hunk.newSize := by
  induction h with
  | rest equal => exact absurd hhunk List.not_mem_nil
  | hunk kept old new oldStart newStart oldSize newSize next ih =>
    rcases List.mem_cons.mp hhunk with rfl | hhunk
    · exact ⟨oldSize, newSize⟩
    · exact ih hhunk

theorem exists_mem_linesOn {l : HunkLine String} {ls : List (HunkLine String)} (h : l ∈ ls) :
    ∃ side x, x ∈ linesOn side ls ∧ l.text = x.toList := by
  cases l with
  | context x => exact ⟨.insert, x, List.mem_flatMap.mpr ⟨_, h, by simp [HunkLine.on]⟩, rfl⟩
  | deleted x => exact ⟨.delete, x, List.mem_flatMap.mpr ⟨_, h, by simp [HunkLine.on]⟩, rfl⟩
  | inserted x => exact ⟨.insert, x, List.mem_flatMap.mpr ⟨_, h, by simp [HunkLine.on]⟩, rfl⟩

theorem readable_hunks {before after : List Char} {h : Hunk String}
    (hh : h ∈ hunks (lines before) (lines after)) : h.Readable := by
  have htiled := tiled_hunks (lines before) (lines after)
  obtain ⟨hold, hnew⟩ := htiled.sizes hh
  refine ⟨hold, hnew, fun l hl => ?_⟩
  obtain ⟨side, x, hx, htext⟩ := exists_mem_linesOn hl
  rw [htext]
  rcases htiled.mem_lines hh side hx with hx | hx
  · exact isLine_of_mem_lines hx
  · exact isLine_of_mem_lines hx

def sectionOf (path before after : String) : Section :=
  ⟨path, hunks (lines before.toList) (lines after.toList)⟩

theorem filePatch_eq_written (path : String) {before after : String} (h : before ≠ after) :
    (filePatch path before after).toList = (sectionOf path before after).written := by
  rw [(formatted_format h).filePatch_eq h]
  rfl

theorem apply_sectionOf (path before after : String) :
    (sectionOf path before after).apply before = some after := by
  rw [Section.apply, sectionOf, applyHunks_hunks, Option.map_some, join_lines]

theorem readable_sectionOf {path before after : String} (hpath : '\n' ∉ path.toList)
    (hne : before ≠ after) : (sectionOf path before after).Readable :=
  ⟨hpath, (formatted_format hne).changed, fun _ hh => readable_hunks hh⟩

end CastGuard.Diff
