/-
# `CastGuard.Proofs.Downcast.Calls` — guarding casts makes and breaks no calls

A guarded statement keeps the value as it was, up to blanks around it, and has other text in front
of it and behind it.  That text consists of names, keywords, colons, equals signs and blanks: both
stretches are inert, in the statement as it was written and in its guarded form, if the null literal
is free of quotes, parentheses and commas.  So a text and what the pass makes of it are alike, and
hold calls of the same kinds (`hasCall_passText`).
-/
import CastGuard.Proofs.Downcast.Pass
import CastGuard.Proofs.Lookup.Alike

namespace CastGuard.Downcast

open CastGuard.Text CastGuard.Lookup

/-! ## Text without frames -/

/-- The text has no character that frames a call. -/
def Unframed (cs : List Char) : Prop := ∀ c ∈ cs, isFrame c = false

instance (cs : List Char) : Decidable (Unframed cs) :=
  List.decidableBAll (fun c => isFrame c = false) cs

theorem Unframed.append {cs ds : List Char} (hcs : Unframed cs) (hds : Unframed ds) :
    Unframed (cs ++ ds) := fun c hc => (List.mem_append.mp hc).elim (hcs c) (hds c)

theorem mem_punctuation_of_isFrame {c : Char} (h : isFrame c = true) : c ∈ punctuation := by
  simp only [isFrame, Bool.or_eq_true, beq_iff_eq] at h
  rcases h with ((rfl | rfl) | rfl) | rfl <;> decide

theorem unframed_of_class {p : Char → Bool} (hp : ∀ c, isFrame c = true → p c = false)
    {cs : List Char} (hcs : ∀ c ∈ cs, p c = true) : Unframed cs := by
  intro c hc
  rw [← Bool.not_eq_true]
  intro hframe
  have := hcs c hc
  rw [hp c hframe] at this
  exact absurd this (by decide)

theorem unframed_blank {cs : List Char} (h : ∀ c ∈ cs, isBlank c = true) : Unframed cs := by
  refine unframed_of_class (fun c hframe => ?_) h
  simp only [isFrame, Bool.or_eq_true, beq_iff_eq] at hframe
  rcases hframe with ((rfl | rfl) | rfl) | rfl <;> decide

theorem unframed_word {cs : List Char} (h : ∀ c ∈ cs, isWord c = true) : Unframed cs :=
  unframed_of_class (fun c hframe => isWord_punctuation c (mem_punctuation_of_isFrame hframe)) h

theorem unframed_identifier {cs : List Char} (h : isIdentifier cs = true) : Unframed cs :=
  unframed_of_class
    (fun c hframe => continuesIdentifier_punctuation c (mem_punctuation_of_isFrame hframe))
    (continues_of_mem_identifier h)

theorem unframed_dotted {cs : List Char} (h : Dotted cs) : Unframed cs := by
  refine unframed_of_class (fun c hframe => ?_) h.isDottedChar
  simp only [isFrame, Bool.or_eq_true, beq_iff_eq] at hframe
  rcases hframe with ((rfl | rfl) | rfl) | rfl <;> decide

theorem exists_eq_append_trim (cs : List Char) :
    ∃ lead trail, (∀ c ∈ lead, isBlank c = true) ∧ (∀ c ∈ trail, isBlank c = true) ∧
      cs = lead ++ (trim cs ++ trail) := by
  have hfront : ∀ ds : List Char, ds = ds.takeWhile isBlank ++ trimFront ds :=
    fun ds => List.takeWhile_append_dropWhile.symm
  have hblank : ∀ ds : List Char, ∀ c ∈ ds.takeWhile isBlank, isBlank c = true :=
    fun ds => List.all_eq_true.mp List.all_takeWhile
  refine ⟨cs.takeWhile isBlank, ((trimFront cs).reverse.takeWhile isBlank).reverse, hblank cs,
    fun c hc => hblank _ c (List.mem_reverse.mp hc), ?_⟩
  have hback := congrArg List.reverse (hfront (trimFront cs).reverse)
  rw [List.reverse_reverse, List.reverse_append] at hback
  rw [trim, trimBack, ← hback]
  exact hfront cs

/-! ## The stretches around a value -/

section Statement

variable {types : List (List Char)} (htypes : ∀ t ∈ types, isIdentifier t = true)
  {g : Guard} {s : Statement} (hs : s.Fits types)
include hs

theorem unframed_indent : Unframed s.indent :=
  unframed_blank fun c hc => isBlank_of_isIndent (hs.indent c hc)

theorem unframed_trailing : Unframed s.cast.trailing :=
  unframed_blank fun c hc => isBlank_of_isTrailing (hs.cast.trailing c hc)

theorem unframed_temporary : Unframed s.destination.temporary :=
  unframed_word (Destination.temporary_word hs.destination)

include htypes in
theorem unframed_slot : Unframed s.destination.slot := by
  have hfits := hs.destination
  rcases hd : s.destination with ⟨name, t⟩ | _ | name
  · rw [hd] at hfits
    obtain ⟨-, hword, ht⟩ := hfits
    exact .append (by decide) (.append (unframed_word hword) (.append (by decide)
      (.append (unframed_identifier (htypes t ht)) (by decide))))
  · exact (by decide : Unframed "return".toList)
  · rw [hd] at hfits
    exact .append (unframed_dotted hfits) (by decide)

theorem exists_solid_slot : ∃ c ∈ s.destination.slot, isBlank c = false := by
  have hfits := hs.destination
  rcases hd : s.destination with ⟨name, t⟩ | _ | name
  · exact ⟨'v', by simp, by decide⟩
  · exact ⟨'r', by simp, by decide⟩
  · exact ⟨'=', by simp, by decide⟩

include htypes in
theorem inert_before {lead : List Char} (hlead : ∀ c ∈ lead, isBlank c = true) :
    Inert (s.indent ++ (s.destination.slot ++ ' ' :: lead)) := by
  obtain ⟨c, hc, hblank⟩ := exists_solid_slot hs
  rw [← List.append_assoc]
  refine inert_append_blanks ((unframed_indent hs).append (unframed_slot htypes hs))
    ⟨c, List.mem_append_right _ hc, hblank⟩ (by simp) ?_
  intro d hd
  rcases List.mem_cons.mp hd with rfl | hd
  · decide
  · exact hlead d hd

theorem inert_holding (hholder : isIdentifier g.holder.toList = true) :
    Inert (s.indent ++ ("var ".toList ++ (s.destination.temporary ++ (": ".toList ++
      (g.holder.toList ++ " = ".toList))))) := by
  have hsplit : s.indent ++ ("var ".toList ++ (s.destination.temporary ++ (": ".toList ++
      (g.holder.toList ++ " = ".toList)))) = (s.indent ++ ("var ".toList ++
        (s.destination.temporary ++ (": ".toList ++ (g.holder.toList ++ " =".toList))))) ++
          [' '] := by simp
  rw [hsplit]
  refine inert_append_blanks ?_ ⟨'v', by simp, by decide⟩ (by simp)
    (forall_mem_of_all (by decide))
  exact (unframed_indent hs).append (.append (by decide) ((unframed_temporary hs).append
    (.append (by decide) ((unframed_identifier hholder).append (by decide)))))

include htypes in
theorem inert_cast {trail : List Char} (htrail : ∀ c ∈ trail, isBlank c = true) :
    Inert ((trail ++ (" as ".toList ++ (s.cast.type ++ s.cast.trailing))) ++ ['\n']) := by
  refine inert_append_blanks ?_ ⟨'a', by simp, by decide⟩ (by simp)
    (forall_mem_of_all (by decide))
  exact (unframed_blank htrail).append (.append (by decide)
    ((unframed_identifier (htypes _ hs.cast.type_mem)).append (unframed_trailing hs)))

include htypes in
theorem inert_testing (hnull : Unframed g.null.toList) :
    Inert ((s.cast.lineEnd ++ s.testing g) ++ ['\n']) := by
  have hend : Unframed s.cast.lineEnd := by
    unfold Cast.lineEnd
    split <;> decide
  have htesting : s.testing g = s.indent ++ (s.destination.slot ++ (" ".toList ++
      (s.destination.temporary ++ (" if ".toList ++ (s.destination.temporary ++ (" is ".toList ++
        (s.cast.type ++ (" else ".toList ++ (g.null.toList ++ s.cast.trailing))))))))) := by
    rw [Statement.testing, Destination.written_eq_slot]
    rfl
  refine inert_append_blanks (hend.append ?_) ?_ (by simp) (forall_mem_of_all (by decide))
  · rw [htesting]
    exact (unframed_indent hs).append ((unframed_slot htypes hs).append (.append (by decide)
      ((unframed_temporary hs).append (.append (by decide) ((unframed_temporary hs).append
        (.append (by decide) ((unframed_identifier (htypes _ hs.cast.type_mem)).append
          (.append (by decide) (hnull.append (unframed_trailing hs))))))))))
  · obtain ⟨c, hc, hblank⟩ := exists_solid_slot hs
    refine ⟨c, ?_, hblank⟩
    rw [htesting]
    simp [hc]

include htypes in
/-- A statement and its guarded form are alike, with the line ends that follow them. -/
theorem alike_guarded (hholder : isIdentifier g.holder.toList = true)
    (hnull : Unframed g.null.toList) : Alike (s.written ++ ['\n']) (s.guarded g ++ ['\n']) := by
  obtain ⟨lead, trail, hlead, htrail, hvalue⟩ := exists_eq_append_trim s.cast.value
  have hwritten : s.written ++ ['\n'] = (s.indent ++ (s.destination.slot ++ ' ' :: lead)) ++
      (trim s.cast.value ++ (((trail ++ (" as ".toList ++ (s.cast.type ++ s.cast.trailing))) ++
        ['\n']) ++ [])) := by
    rw [Statement.written, Destination.written_eq_slot, Cast.written]
    nth_rewrite 1 [hvalue]
    simp
  have hguarded : s.guarded g ++ ['\n'] = (s.indent ++ ("var ".toList ++
      (s.destination.temporary ++ (": ".toList ++ (g.holder.toList ++ " = ".toList))))) ++
      (trim s.cast.value ++ (((s.cast.lineEnd ++ s.testing g) ++ ['\n']) ++ [])) := by
    simp [Statement.guarded, Statement.holding]
  rw [hwritten, hguarded]
  exact .inert (inert_before htypes hs hlead) (inert_holding hs hholder)
    ((Alike.refl _).append (.inert (inert_cast htypes hs htrail) (inert_testing htypes hs hnull)
      .nil))

end Statement

/-! ## The pass -/

section Pass

variable {g : Guard} {types : List String} (hg : g.Usable types) (hnull : Unframed g.null.toList)
include hg hnull

theorem alike_of_becomes {line : List Char} (hline : '\n' ∉ line) {out : Option Form × List Char}
    (h : Becomes g (types.map String.toList) line out) :
    Alike (line ++ ['\n']) (out.2 ++ ['\n']) := by
  rcases h.guarded_or_kept with ⟨f, p, hp, rfl⟩ | ⟨-, rfl⟩
  · obtain ⟨s, ⟨hs, -⟩, rfl⟩ := (hasForm_iff hline).mp hp
    rw [s.guarded_castLine, ← hs.written]
    exact alike_guarded hg.identifiers hs.fits hg.holder hnull
  · exact .refl _

theorem alike_passText (cs : List Char) :
    Alike (cs ++ ['\n']) (passText g types cs ++ ['\n']) := by
  refine passText_induction hg
    (R := fun text left => Alike (text ++ ['\n']) (left ++ ['\n'])) ?_ ?_ cs
  · exact fun line out hline hout => alike_of_becomes hg hnull hline hout
  · intro line rest line' rest' hline hrest
    simpa using hline.append hrest

/-- The pass makes no call and breaks none. -/
theorem hasCall_passText {k : Lookup.Kind} {cs : List Char} :
    HasCall k (passText g types cs) ↔ HasCall k cs := by
  calc HasCall k (passText g types cs)
      ↔ HasCall k (passText g types cs ++ ['\n']) := hasCall_append_lineEnd.symm
    _ ↔ HasCall k (cs ++ ['\n']) := (alike_passText hg hnull cs).symm.hasCall_iff
    _ ↔ HasCall k cs := hasCall_append_lineEnd

end Pass

end CastGuard.Downcast
