/-
# `CastGuard.Proofs.Diff.Hunks` — hunks turn the old list into the new one

Applying hunks is defined on its own (`applyHunks`): what lies between two hunks is copied, a hunk
has to find its old lines at its place and gives its new lines instead, and the places that it names
have to be right on both sides.  `applyHunks_hunks` says that the hunks between two lists, applied
to the first, give the second.

The proof follows the way hunks are made.  The blocks of a script stand in both lists with equal
stretches between them (`Aligned`).  They are divided into groups, each of which becomes a hunk, and
the hunks again have equal stretches between them (`Tiled`).  What has to be seen is that the
context which is added to a group is there on both sides: a block that does not join the group
before it is at least three elements away from that group's own context, and for that two blocks
must never touch, which is why empty steps were ruled out.
-/
import CastGuard.Diff.Hunk
import CastGuard.Proofs.Diff.Compaction

namespace CastGuard.Diff

variable {α : Type}

/-! ## Applying hunks -/

def HunkLine.on (side : Change) : HunkLine α → List α
  | .context x => [x]
  | .deleted x => if side = .delete then [x] else []
  | .inserted x => if side = .insert then [x] else []

def linesOn (side : Change) (ls : List (HunkLine α)) : List α := ls.flatMap (HunkLine.on side)

/-- Applies hunks to the rest of a list from position `i` on, when `j` elements have been given
already. -/
def applyFrom [DecidableEq α] (i j : Nat) : List (Hunk α) → List α → Option (List α)
  | [], rest => some rest
  | h :: hs, rest =>
    let gap := h.oldStart - i
    let old := linesOn .delete h.lines
    let new := linesOn .insert h.lines
    if i ≤ h.oldStart ∧ h.newStart = j + gap ∧ gap ≤ rest.length ∧ old <+: rest.drop gap then
      (applyFrom (h.oldStart + old.length) (h.newStart + new.length) hs
        (rest.drop (gap + old.length))).map (rest.take gap ++ new ++ ·)
    else none

/-- Applies hunks to a list; there is no result if they do not fit. -/
def applyHunks [DecidableEq α] (hs : List (Hunk α)) (old : List α) : Option (List α) :=
  applyFrom 0 0 hs old

section Lines

variable {side : Change}

@[simp]
theorem linesOn_nil : linesOn side ([] : List (HunkLine α)) = [] := rfl

@[simp]
theorem linesOn_cons (l : HunkLine α) (ls : List (HunkLine α)) :
    linesOn side (l :: ls) = l.on side ++ linesOn side ls := rfl

@[simp]
theorem linesOn_append (as bs : List (HunkLine α)) :
    linesOn side (as ++ bs) = linesOn side as ++ linesOn side bs := List.flatMap_append

@[simp]
theorem linesOn_context (xs : List α) : linesOn side (xs.map .context) = xs := by
  induction xs with
  | nil => rfl
  | cons x xs ih => simp [HunkLine.on, ih]

theorem linesOn_deleted (xs : List α) :
    linesOn side (xs.map .deleted) = if side = .delete then xs else [] := by
  induction xs with
  | nil => simp
  | cons x xs ih => cases side <;> simp_all [HunkLine.on]

theorem linesOn_inserted (xs : List α) :
    linesOn side (xs.map .inserted) = if side = .insert then xs else [] := by
  induction xs with
  | nil => simp
  | cons x xs ih => cases side <;> simp_all [HunkLine.on]

theorem linesOn_changeLines_delete (b : Block α) :
    linesOn .delete (Sides.changeLines b) = b.deleted := by
  simp [Sides.changeLines, linesOn_deleted, linesOn_inserted]

theorem linesOn_changeLines_insert (b : Block α) :
    linesOn .insert (Sides.changeLines b) = b.inserted := by
  simp [Sides.changeLines, linesOn_deleted, linesOn_inserted]

end Lines

/-! ## Blocks in their places -/

/-- Blocks stand in both lists, from position `i` of the old and `j` of the new list on: equal
stretches lie before, between and behind them, and no two blocks touch. -/
inductive Aligned (s : Sides α) : Nat → Nat → List (Block α) → Prop
  | rest {i j : Nat} (equal : s.old.drop i = s.new.drop j) : Aligned s i j []
  | block {i j : Nat} {b : Block α} {bs : List (Block α)} (kept : List α)
      (old : s.old.drop i = kept ++ (b.deleted ++ s.old.drop b.oldEnd))
      (new : s.new.drop j = kept ++ (b.inserted ++ s.new.drop b.newEnd))
      (oldStart : b.oldStart = i + kept.length) (newStart : b.newStart = j + kept.length)
      (apart : ∀ c ∈ bs.head?, b.oldEnd < c.oldStart) (next : Aligned s b.oldEnd b.newEnd bs) :
      Aligned s i j (b :: bs)

section Places

variable {s : Sides α} {i j : Nat} {bs : List (Block α)}

theorem drop_add_of_eq {xs front rest : List α} {n : Nat} (h : xs.drop n = front ++ rest) :
    xs.drop (n + front.length) = rest := by
  rw [← List.drop_drop, h, List.drop_left]

theorem Aligned.prepend (xs : List α) (hold : s.old.drop i = xs ++ s.old.drop (i + xs.length))
    (hnew : s.new.drop j = xs ++ s.new.drop (j + xs.length))
    (h : Aligned s (i + xs.length) (j + xs.length) bs) : Aligned s i j bs := by
  cases h with
  | rest equal => exact .rest (by rw [hold, hnew, equal])
  | block kept old new oldStart newStart apart next =>
    refine .block (xs ++ kept) ?_ ?_ ?_ ?_ apart next
    · rw [hold, old, List.append_assoc]
    · rw [hnew, new, List.append_assoc]
    · rw [oldStart, List.length_append, Nat.add_assoc]
    · rw [newStart, List.length_append, Nat.add_assoc]

/-- A block and the equal stretch before it. -/
structure Stands (s : Sides α) (i j : Nat) (b : Block α) (kept : List α) : Prop where
  old : s.old.drop i = kept ++ (b.deleted ++ s.old.drop b.oldEnd)
  new : s.new.drop j = kept ++ (b.inserted ++ s.new.drop b.newEnd)
  oldStart : b.oldStart = i + kept.length
  newStart : b.newStart = j + kept.length

theorem Stands.push {b : Block α} {kept : List α} (h : Stands s i j b kept) (c : Change)
    {xs : List α} {es : List (Edit α)}
    (hold : s.old.drop b.oldEnd = sideOf .delete (.change c xs :: es))
    (hnew : s.new.drop b.newEnd = sideOf .insert (.change c xs :: es)) :
    Stands s i j (b.push c xs) kept ∧ s.old.drop (b.push c xs).oldEnd = sideOf .delete es ∧
      s.new.drop (b.push c xs).newEnd = sideOf .insert es := by
  cases c with
  | delete =>
    have hend : (b.push .delete xs).oldEnd = b.oldEnd + xs.length := by
      simp [Block.push, Block.oldEnd, Nat.add_assoc]
    have hrest : s.old.drop (b.push .delete xs).oldEnd = sideOf .delete es := by
      rw [hend]
      exact drop_add_of_eq hold
    refine ⟨⟨?_, h.new, h.oldStart, h.newStart⟩, hrest, hnew⟩
    rw [h.old, hrest, hold]
    simp [Block.push, Edit.on]
  | insert =>
    have hend : (b.push .insert xs).newEnd = b.newEnd + xs.length := by
      simp [Block.push, Block.newEnd, Nat.add_assoc]
    have hrest : s.new.drop (b.push .insert xs).newEnd = sideOf .insert es := by
      rw [hend]
      exact drop_add_of_eq hnew
    refine ⟨⟨h.old, ?_, h.oldStart, h.newStart⟩, hold, hrest⟩
    rw [h.new, hrest, hnew]
    simp [Block.push, Edit.on]

/-- The blocks of a script stand where they say.  The two statements, with and without a block that
the next change would join, need each other. -/
theorem aligned_blocksFrom {es : List (Edit α)} (hes : Solid es) :
    (∀ i j, s.old.drop i = sideOf .delete es → s.new.drop j = sideOf .insert es →
      Aligned s i j (blocksFrom i j none es)) ∧
    (∀ i j b kept, Stands s i j b kept → s.old.drop b.oldEnd = sideOf .delete es →
      s.new.drop b.newEnd = sideOf .insert es →
      Aligned s i j (blocksFrom b.oldEnd b.newEnd (some b) es)) := by
  induction es with
  | nil =>
    refine ⟨fun i j hold hnew => .rest (hold.trans hnew.symm), ?_⟩
    intro i j b kept hb hold hnew
    exact .block kept hb.old hb.new hb.oldStart hb.newStart nofun (.rest (hold.trans hnew.symm))
  | cons e es ih =>
    obtain ⟨he, hes⟩ := solid_cons.mp hes
    obtain ⟨ihNone, ihSome⟩ := ih hes
    cases e with
    | keep xs =>
      have hnext : ∀ {i j : Nat}, s.old.drop i = xs ++ sideOf .delete es →
          s.new.drop j = xs ++ sideOf .insert es →
          Aligned s i j (blocksFrom (i + xs.length) (j + xs.length) none es) := by
        intro i j hold hnew
        have hold' := drop_add_of_eq hold
        have hnew' := drop_add_of_eq hnew
        exact .prepend xs (hold'.symm ▸ hold) (hnew'.symm ▸ hnew) (ihNone _ _ hold' hnew')
      refine ⟨fun i j hold hnew => hnext hold hnew, ?_⟩
      intro i j b kept hb hold hnew
      refine .block kept hb.old hb.new hb.oldStart hb.newStart ?_ (hnext hold hnew)
      -- the next block stands behind `xs`, which is not empty
      intro c hc
      have hafter := ihNone (b.oldEnd + xs.length) (b.newEnd + xs.length) (drop_add_of_eq hold)
        (drop_add_of_eq hnew)
      have hpos : 0 < xs.length := List.length_pos_iff.mpr he
      generalize blocksFrom (b.oldEnd + xs.length) (b.newEnd + xs.length) none es = cs at hafter hc
      cases hafter with
      | rest _ => exact absurd hc (by simp)
      | block kept' _ _ oldStart _ _ _ =>
        obtain rfl : _ = c := by simpa using hc
        omega
    | change c xs =>
      refine ⟨fun i j hold hnew => ?_, fun i j b kept hb hold hnew => ?_⟩
      · have hstart : Stands s i j (⟨i, j, [], []⟩ : Block α) [] := ⟨rfl, rfl, rfl, rfl⟩
        obtain ⟨hb, hold', hnew'⟩ := hstart.push c hold hnew
        exact ihSome i j _ [] hb hold' hnew'
      · obtain ⟨hb', hold', hnew'⟩ := hb.push c hold hnew
        exact ihSome i j _ kept hb' hold' hnew'

end Places

/-! ## Hunks in their places -/

/-- Hunks stand in both lists, from position `i` of the old and `j` of the new list on, with equal
stretches before, between and behind them. -/
inductive Tiled (s : Sides α) : Nat → Nat → List (Hunk α) → Prop
  | rest {i j : Nat} (equal : s.old.drop i = s.new.drop j) : Tiled s i j []
  | hunk {i j : Nat} {h : Hunk α} {hs : List (Hunk α)} (kept : List α)
      (old : s.old.drop i =
        kept ++ (linesOn .delete h.lines ++ s.old.drop (h.oldStart + h.oldSize)))
      (new : s.new.drop j =
        kept ++ (linesOn .insert h.lines ++ s.new.drop (h.newStart + h.newSize)))
      (oldStart : h.oldStart = i + kept.length) (newStart : h.newStart = j + kept.length)
      (oldSize : (linesOn .delete h.lines).length = h.oldSize)
      (newSize : (linesOn .insert h.lines).length = h.newSize)
      (next : Tiled s (h.oldStart + h.oldSize) (h.newStart + h.newSize) hs) : Tiled s i j (h :: hs)

/-- Hunks that stand in both lists turn the rest of the one into the rest of the other. -/
theorem Tiled.applyFrom_eq [DecidableEq α] {s : Sides α} {i j : Nat} {hs : List (Hunk α)}
    (h : Tiled s i j hs) : applyFrom i j hs (s.old.drop i) = some (s.new.drop j) := by
  induction h with
  | rest equal => simp [applyFrom, equal]
  | @hunk i j h hs kept old new oldStart newStart oldSize newSize next ih =>
    have hgap : h.oldStart - i = kept.length := by omega
    have hrest : (s.old.drop i).drop (kept.length + h.oldSize) =
        s.old.drop (h.oldStart + h.oldSize) := by
      rw [List.drop_drop, oldStart, Nat.add_assoc]
    have hfits : i ≤ h.oldStart ∧ h.newStart = j + kept.length ∧
        kept.length ≤ (s.old.drop i).length ∧
          linesOn .delete h.lines <+: (s.old.drop i).drop kept.length := by
      refine ⟨by omega, newStart, ?_, ?_⟩
      · rw [old, List.length_append]
        omega
      · rw [old, List.drop_left]
        exact List.prefix_append ..
    simp only [applyFrom, hgap]
    rw [if_pos hfits, oldSize, newSize, hrest, ih, Option.map_some, new]
    rw [old, List.take_left, List.append_assoc]

/-! ## Groups of blocks as hunks -/

section Groups

variable {s : Sides α} {i j : Nat} {b : Block α} {others rest : List (Block α)}

/-- The first group is a front of the blocks, and what follows it does not join its last block. -/
theorem groups_cons (s : Sides α) (b : Block α) (bs : List (Block α)) :
    ∃ others rest, s.groups (b :: bs) = (b :: others) :: s.groups rest ∧ bs = others ++ rest ∧
      ∀ c ∈ rest.head?, s.joins (others.getLastD b) c = false := by
  induction bs generalizing b with
  | nil => exact ⟨[], [], rfl, rfl, nofun⟩
  | cons c bs ih =>
    obtain ⟨others, rest, hgroups, rfl, hends⟩ := ih c
    have hstep : s.groups (b :: c :: (others ++ rest)) =
        if s.joins b c then (b :: c :: others) :: s.groups rest
        else [b] :: s.groups (c :: (others ++ rest)) := by
      rw [Sides.groups, hgroups]
    by_cases hjoins : s.joins b c = true
    · refine ⟨c :: others, rest, ?_, rfl, ?_⟩
      · rw [hstep, if_pos hjoins]
      · rw [List.getLastD_cons]
        exact hends
    · refine ⟨[], c :: (others ++ rest), ?_, rfl, ?_⟩
      · rw [hstep, if_neg hjoins]
      · intro d hd
        obtain rfl : c = d := by simpa using hd
        simpa using hjoins

theorem hunksOf_cons {b : Block α} {bs : List (Block α)}
    (h : s.groups (b :: bs) = (b :: others) :: s.groups rest) :
    s.hunksOf (b :: bs) = s.hunkOf b others :: s.hunksOf rest := by
  simp [Sides.hunksOf, h]

theorem slice_eq (xs : List α) (start size : Nat) :
    Sides.slice xs start (start + size) = (xs.drop start).take size := by
  rw [Sides.slice, List.drop_take, Nat.add_sub_cancel_left]

theorem slice_of_drop {xs front rest : List α} {start stop : Nat}
    (h : xs.drop start = front ++ rest) (hstop : stop = start + front.length) :
    Sides.slice xs start stop = front := by
  rw [hstop, slice_eq, h, List.take_left]

/-- The context behind a block is there on both sides. -/
structure Followed (s : Sides α) (b : Block α) (context : List α) : Prop where
  old : s.old.drop b.oldEnd = context ++ s.old.drop (b.oldEnd + s.contextAfter b)
  new : s.new.drop b.newEnd = context ++ s.new.drop (b.newEnd + s.contextAfter b)
  size : context.length = s.contextAfter b

/-- The lines of a group are what both lists have from its first block to the end of the context
behind its last one. -/
theorem linesOn_groupLines {context : List α} (h : Aligned s i j (b :: (others ++ rest)))
    (hlast : Followed s (others.getLastD b) context) :
    s.old.drop b.oldStart = linesOn .delete (s.groupLines (b :: others)) ++
      s.old.drop ((others.getLastD b).oldEnd + s.contextAfter (others.getLastD b)) ∧
    s.new.drop b.newStart = linesOn .insert (s.groupLines (b :: others)) ++
      s.new.drop ((others.getLastD b).newEnd + s.contextAfter (others.getLastD b)) := by
  induction others generalizing i j b with
  | nil =>
    rw [List.getLastD_nil] at hlast
    cases h with
    | block kept old new oldStart newStart apart next =>
      have hcontext : Sides.slice s.new b.newEnd (b.newEnd + s.contextAfter b) = context :=
        slice_of_drop hlast.new (by rw [hlast.size])
      simp only [Sides.groupLines, Sides.context, linesOn_append, linesOn_context,
        linesOn_changeLines_delete, linesOn_changeLines_insert, hcontext, List.getLastD_nil]
      constructor
      · rw [oldStart, drop_add_of_eq old, List.append_assoc]
        exact congrArg (b.deleted ++ ·) hlast.old
      · rw [newStart, drop_add_of_eq new, List.append_assoc]
        exact congrArg (b.inserted ++ ·) hlast.new
  | cons c others ih =>
    rw [List.getLastD_cons] at hlast ⊢
    cases h with
    | block kept old new oldStart newStart apart next =>
      obtain ⟨hold, hnew⟩ := ih next hlast
      cases next with
      | block kept' old' new' oldStart' newStart' apart' next' =>
        have hbetween := slice_of_drop new' newStart'
        simp only [Sides.groupLines, Sides.context, linesOn_append, linesOn_context,
          linesOn_changeLines_delete, linesOn_changeLines_insert, hbetween]
        constructor
        · rw [oldStart, drop_add_of_eq old, List.append_assoc, List.append_assoc, ← hold,
            oldStart', drop_add_of_eq old', ← old']
        · rw [newStart, drop_add_of_eq new, List.append_assoc, List.append_assoc, ← hnew,
            newStart', drop_add_of_eq new', ← new']

theorem Aligned.behind (h : Aligned s i j (b :: (others ++ rest))) :
    Aligned s (others.getLastD b).oldEnd (others.getLastD b).newEnd rest ∧
      ∀ c ∈ rest.head?, (others.getLastD b).oldEnd < c.oldStart := by
  induction others generalizing i j b with
  | nil =>
    cases h with
    | block kept old new oldStart newStart apart next => exact ⟨next, apart⟩
  | cons c others ih =>
    rw [List.getLastD_cons]
    cases h with
    | block kept old new oldStart newStart apart next => exact ih next

theorem Aligned.head_bounds {bs : List (Block α)} (h : Aligned s i j (b :: bs))
    (hi : i ≤ s.old.length)
    (hj : j ≤ s.new.length) :
    b.oldStart ≤ b.oldEnd ∧ b.oldEnd ≤ s.old.length ∧
      b.newStart ≤ b.newEnd ∧ b.newEnd ≤ s.new.length := by
  cases h with
  | block kept old new oldStart newStart apart next =>
    have hold := congrArg List.length old
    have hnew := congrArg List.length new
    simp only [List.length_append, List.length_drop, Block.oldEnd, Block.newEnd] at hold hnew
    simp only [Block.oldEnd, Block.newEnd]
    omega

theorem Aligned.bounds (h : Aligned s i j (b :: (others ++ rest))) (hi : i ≤ s.old.length)
    (hj : j ≤ s.new.length) :
    b.oldStart ≤ (others.getLastD b).oldEnd ∧ (others.getLastD b).oldEnd ≤ s.old.length ∧
      b.newStart ≤ (others.getLastD b).newEnd ∧ (others.getLastD b).newEnd ≤ s.new.length := by
  have hhead := h.head_bounds hi hj
  induction others generalizing i j b with
  | nil => exact hhead
  | cons c others ih =>
    rw [List.getLastD_cons]
    cases h with
    | block _ _ _ _ _ _ next =>
      have hold := hhead.2.1
      have hnew := hhead.2.2.2
      have hlater := ih next hold hnew (next.head_bounds hold hnew)
      cases next with
      | block kept _ _ oldStart newStart _ _ => omega

/-- A position can be moved forward over elements that are equal on both sides. -/
theorem Aligned.advance {bs : List (Block α)} (h : Aligned s i j bs) {n : Nat}
    (hold : n ≤ (s.old.drop i).length) (hnext : ∀ c ∈ bs.head?, i + n ≤ c.oldStart) :
    ∃ xs, xs.length = n ∧ s.old.drop i = xs ++ s.old.drop (i + n) ∧
      s.new.drop j = xs ++ s.new.drop (j + n) ∧ Aligned s (i + n) (j + n) bs := by
  cases h with
  | rest equal =>
    refine ⟨(s.old.drop i).take n, List.length_take_of_le hold, ?_, ?_, .rest ?_⟩
    · rw [← List.drop_drop, List.take_append_drop]
    · rw [← List.drop_drop, equal, List.take_append_drop]
    · rw [← List.drop_drop, ← List.drop_drop, equal]
  | @block i j b bs kept old new oldStart newStart apart next =>
    have hkept : n ≤ kept.length := by
      have hstart := hnext b (by simp)
      omega
    have hsplit : kept = kept.take n ++ kept.drop n := (List.take_append_drop n kept).symm
    have hlength : (kept.take n).length = n := List.length_take_of_le hkept
    have hcut : ∀ {xs rest : List α} {k : Nat}, xs.drop k = kept ++ rest →
        xs.drop (k + n) = kept.drop n ++ rest := by
      intro xs rest k hxs
      rw [← List.drop_drop, hxs, List.drop_append_of_le_length hkept]
    refine ⟨kept.take n, hlength, ?_, ?_,
      .block (kept.drop n) (hcut old) (hcut new) ?_ ?_ apart next⟩
    · rw [hcut old, ← List.append_assoc, List.take_append_drop, old]
    · rw [hcut new, ← List.append_assoc, List.take_append_drop, new]
    · rw [List.length_drop]
      omega
    · rw [List.length_drop]
      omega

/-- There is room for the context in front of a block, and it is as long on both sides. -/
def Clear (i : Nat) (b : Block α) : Prop :=
  i ≤ b.oldStart - contextSize ∧ min contextSize b.oldStart = min contextSize b.newStart

/-- The context behind the last block of a group is there, and what follows is clear of it. -/
theorem exists_followed {last : Block α} (h : Aligned s last.oldEnd last.newEnd rest)
    (hold : last.oldEnd ≤ s.old.length) (hapart : ∀ c ∈ rest.head?, last.oldEnd < c.oldStart)
    (hends : ∀ c ∈ rest.head?, s.joins last c = false) :
    ∃ context, Followed s last context ∧
      Aligned s (last.oldEnd + s.contextAfter last) (last.newEnd + s.contextAfter last) rest ∧
      ∀ c ∈ rest.head?, Clear (last.oldEnd + s.contextAfter last) c := by
  have hfar : ∀ c ∈ rest.head?, last.oldEnd + s.contextAfter last ≤ c.oldStart - contextSize := by
    intro c hc
    have hjoins := hends c hc
    simp only [Sides.joins, decide_eq_false_iff_not] at hjoins
    omega
  have hsize : s.contextAfter last ≤ (s.old.drop last.oldEnd).length := by
    simp only [Sides.contextAfter, List.length_drop]
    omega
  obtain ⟨context, hlength, hcontextOld, hcontextNew, hnext⟩ := h.advance hsize fun c hc =>
    Nat.le_trans (hfar c hc) (Nat.sub_le ..)
  refine ⟨context, ⟨hcontextOld, hcontextNew, hlength⟩, hnext, fun c hc => ⟨hfar c hc, ?_⟩⟩
  cases h with
  | rest equal => exact absurd hc (by simp)
  | block kept old new oldStart newStart apart next =>
    obtain rfl : _ = c := by simpa using hc
    -- if the block were near the start of the old list, the last one would have no context at all,
    -- but at least the element between them is there on both sides
    have hbetween := hapart _ hc
    have hlengthOld := congrArg List.length old
    have hlengthNew := congrArg List.length new
    simp only [List.length_append, List.length_drop] at hlengthOld hlengthNew
    have hroom := hfar _ hc
    simp only [Sides.contextAfter, contextSize] at hroom ⊢
    omega

theorem exists_lead {bs : List (Block α)} (h : Aligned s i j (b :: bs)) (hclear : Clear i b) :
    ∃ kept lead, b.oldStart - contextSize = i + kept.length ∧
      b.newStart - contextSize = j + kept.length ∧
      s.context (b.newStart - contextSize) b.newStart = lead.map .context ∧
      s.old.drop i = kept ++ (lead ++ s.old.drop b.oldStart) ∧
      s.new.drop j = kept ++ (lead ++ s.new.drop b.newStart) ∧
      b.oldStart = b.oldStart - contextSize + lead.length ∧
      b.newStart = b.newStart - contextSize + lead.length := by
  obtain ⟨hroom, hsame⟩ := hclear
  cases h with
  | block all old new oldStart newStart apart next =>
    have hcut : ∃ kept lead, all = kept ++ lead ∧ lead.length = min contextSize b.oldStart := by
      refine ⟨all.take (b.oldStart - contextSize - i), all.drop (b.oldStart - contextSize - i),
        (List.take_append_drop ..).symm, ?_⟩
      rw [List.length_drop]
      omega
    obtain ⟨kept, lead, rfl, hlead⟩ := hcut
    rw [List.length_append] at oldStart newStart
    have hnewStart : b.newStart - contextSize = j + kept.length := by omega
    have hbeforeOld := drop_add_of_eq old
    have hbeforeNew := drop_add_of_eq new
    rw [List.length_append, ← oldStart] at hbeforeOld
    rw [List.length_append, ← newStart] at hbeforeNew
    rw [← hbeforeOld, List.append_assoc] at old
    rw [← hbeforeNew, List.append_assoc] at new
    refine ⟨kept, lead, by omega, hnewStart, ?_, old, new, by omega, by omega⟩
    have hdrop : s.new.drop (b.newStart - contextSize) = lead ++ s.new.drop b.newStart := by
      rw [hnewStart]
      exact drop_add_of_eq new
    rw [Sides.context, slice_of_drop hdrop (by omega)]

theorem tiled_hunksOf {bs : List (Block α)} (h : Aligned s i j bs) (hi : i ≤ s.old.length)
    (hj : j ≤ s.new.length) (hclear : ∀ b ∈ bs.head?, Clear i b) : Tiled s i j (s.hunksOf bs) := by
  induction hn : bs.length using Nat.strongRecOn generalizing i j bs with
  | ind n ih =>
    cases bs with
    | nil =>
      cases h with
      | rest equal => exact .rest equal
    | cons b bs =>
      obtain ⟨others, rest, hgroups, rfl, hends⟩ := groups_cons s b bs
      obtain ⟨hstartOld, hendOld, hstartNew, hendNew⟩ := h.bounds hi hj
      obtain ⟨hbehind, hapart⟩ := h.behind
      obtain ⟨context, hfollowed, hnext, hnextClear⟩ :=
        exists_followed hbehind hendOld hapart hends
      obtain ⟨hlinesOld, hlinesNew⟩ := linesOn_groupLines h hfollowed
      obtain ⟨kept, lead, hkeptOld, hkeptNew, hlead, hold, hnew, hleadOld, hleadNew⟩ :=
        exists_lead h (hclear b (by simp))
      have hafterOld : s.contextAfter (others.getLastD b) ≤
          s.old.length - (others.getLastD b).oldEnd := by
        simp only [Sides.contextAfter]
        omega
      have hafterNew : s.contextAfter (others.getLastD b) ≤
          s.new.length - (others.getLastD b).newEnd := by
        simp only [Sides.contextAfter]
        omega
      have hlengthOld := congrArg List.length hlinesOld
      have hlengthNew := congrArg List.length hlinesNew
      simp only [List.length_append, List.length_drop] at hlengthOld hlengthNew
      have hstopOld : (s.hunkOf b others).oldStart + (s.hunkOf b others).oldSize =
          (others.getLastD b).oldEnd + s.contextAfter (others.getLastD b) := by
        simp only [Sides.hunkOf]
        omega
      have hstopNew : (s.hunkOf b others).newStart + (s.hunkOf b others).newSize =
          (others.getLastD b).newEnd + s.contextAfter (others.getLastD b) := by
        simp only [Sides.hunkOf]
        omega
      have hlines : ∀ side, linesOn side (s.hunkOf b others).lines =
          lead ++ linesOn side (s.groupLines (b :: others)) := by
        intro side
        simp only [Sides.hunkOf, hlead, linesOn_append, linesOn_context]
      rw [hunksOf_cons hgroups]
      refine .hunk kept ?_ ?_ hkeptOld hkeptNew ?_ ?_ ?_
      · rw [hold, hlines, hstopOld, hlinesOld, List.append_assoc]
      · rw [hnew, hlines, hstopNew, hlinesNew, List.append_assoc]
      · rw [hlines, List.length_append]
        simp only [Sides.hunkOf]
        omega
      · rw [hlines, List.length_append]
        simp only [Sides.hunkOf]
        omega
      · rw [hstopOld, hstopNew]
        refine ih rest.length ?_ hnext (by omega) (by omega) hnextClear rfl
        rw [← hn, List.length_cons, List.length_append]
        omega

end Groups

/-! ## The hunks between two lists -/

theorem tiled_hunks [DecidableEq α] (old new : List α) : Tiled ⟨old, new⟩ 0 0 (hunks old new) := by
  obtain ⟨hold, hnew, hsolid⟩ := compact_script old new
  have haligned : Aligned ⟨old, new⟩ 0 0 (blocks (compact (script old new))) :=
    (aligned_blocksFrom hsolid).1 0 0 hold.symm hnew.symm
  refine tiled_hunksOf haligned (Nat.zero_le _) (Nat.zero_le _) fun b hb => ⟨Nat.zero_le _, ?_⟩
  generalize blocks (compact (script old new)) = bs at haligned hb
  cases haligned with
  | rest _ => exact absurd hb (by simp)
  | block kept _ _ oldStart newStart _ _ =>
    obtain rfl : _ = b := by simpa using hb
    rw [oldStart, newStart]

/-- Applied to the old list, the hunks between two lists give the new one. -/
theorem applyHunks_hunks [DecidableEq α] (old new : List α) :
    applyHunks (hunks old new) old = some new := (tiled_hunks old new).applyFrom_eq

end CastGuard.Diff
