/-
# `CastGuard.Proofs.Fixer.LineEnds` — line ends with a carriage return

In a text of the kind that `Crlf` describes every line end follows a carriage return.  The rules for
look-ups keep it so: what they copy brings each line end along with what stands in front of it, and
of the blanks in front of a default they drop either all or none, so that no line end loses its
carriage return.

The rules for casts put one line end into each line that they guard, and the line says which: the
one that its trailing blanks end in.  A line with a line end behind it has a carriage return there
to go by.  The last line of a text may have none, and if its cast is guarded then the line end
inside is a bare one, whatever the other lines look like.  It is the only one, and `crlf_fixed_iff`
says when it occurs.
-/
import CastGuard.Proofs.Fixer.Recount

namespace CastGuard

open CastGuard.Text

/-! ## Line ends and what stands in front of them -/

/-- Every line end follows a carriage return. -/
def Crlf (cs : List Char) : Prop :=
  ∀ front back, cs = front ++ '\n' :: back → front.getLast? = some '\r'

/-- The same, of a text behind the character `before`. -/
def crlfBehind (before : Option Char) : List Char → Bool
  | [] => true
  | c :: cs => (c != '\n' || before == some '\r') && crlfBehind (some c) cs

theorem crlfBehind_iff {before : Option Char} {cs : List Char} : crlfBehind before cs = true ↔
    ∀ front back, cs = front ++ '\n' :: back → lastOr before front = some '\r' := by
  induction cs generalizing before with
  | nil => simp [crlfBehind]
  | cons c cs ih =>
    rw [crlfBehind, Bool.and_eq_true, ih]
    constructor
    · rintro ⟨hc, hcs⟩ front back heq
      cases front with
      | nil =>
        obtain ⟨rfl, -⟩ := List.cons.inj heq
        simpa using hc
      | cons d front =>
        obtain ⟨rfl, hback⟩ := List.cons.inj heq
        rw [lastOr_cons]
        exact hcs front back hback
    · intro h
      constructor
      · by_cases hc : c = '\n'
        · have hbefore := h [] cs (by rw [hc]; rfl)
          simp [show before = some '\r' from hbefore]
        · simp [hc]
      · intro front back heq
        have hlast := h (c :: front) back (by rw [heq]; rfl)
        rwa [lastOr_cons] at hlast

theorem crlf_iff {cs : List Char} : Crlf cs ↔ crlfBehind none cs = true := by
  rw [crlfBehind_iff]
  simp only [Crlf, lastOr, Option.or_none]

instance : DecidablePred Crlf := fun _ => decidable_of_iff _ crlf_iff.symm

theorem crlfBehind_append (before : Option Char) (front back : List Char) :
    crlfBehind before (front ++ back) =
      (crlfBehind before front && crlfBehind (lastOr before front) back) := by
  induction front generalizing before with
  | nil => rfl
  | cons c front ih =>
    rw [List.cons_append, crlfBehind, crlfBehind, ih, lastOr_cons, Bool.and_assoc]

/-- What stands in front of a text counts only if the text starts with a line end. -/
theorem crlfBehind_congr {before before' : Option Char} {cs : List Char}
    (h : cs.head? = some '\n' → (before == some '\r') = (before' == some '\r')) :
    crlfBehind before cs = crlfBehind before' cs := by
  cases cs with
  | nil => rfl
  | cons c cs =>
    rw [crlfBehind, crlfBehind]
    by_cases hc : c = '\n'
    · rw [h (by rw [hc]; rfl)]
    · rw [bne_iff_ne.mpr hc, Bool.true_or, Bool.true_or]

theorem crlfBehind_of_notMem (before : Option Char) {cs : List Char} (h : '\n' ∉ cs) :
    crlfBehind before cs = true := by
  rw [crlfBehind_iff]
  rintro front back rfl
  exact absurd h (by simp)

theorem crlf_append_lineEnd {front back : List Char} :
    Crlf (front ++ '\n' :: back) ↔ Crlf front ∧ front.getLast? = some '\r' ∧ Crlf back := by
  have hback : crlfBehind (some '\n') back = crlfBehind none back :=
    crlfBehind_congr fun _ => rfl
  have hlast : lastOr none front = front.getLast? := Option.or_none
  simp [crlf_iff, crlfBehind_append, crlfBehind, hback, hlast]

/-! ## Look-ups -/

section Lookups

open CastGuard.Lookup

theorem Lookup.Closing.head_isBlank {k : Lookup.Kind} {cs rest : List Char} {a : Argument}
    (h : Closing k cs (some a) rest) : ∀ c, a.value.head? = some c → isBlank c = false := by
  cases h with
  | quoted =>
    intro c hc
    obtain rfl : '"' = c := by simpa [quotation] using hc
    rfl
  | plain _ _ hmaximal => exact hmaximal

/-- No blank in front of a default is left to it. -/
theorem Lookup.Decomposes.head_isBlank {k : Lookup.Kind} {cs : List Char} {ps : List (Piece Call)}
    (h : Decomposes k cs ps) : ∀ c ∈ finds ps, ∀ a, c.argument = some a →
      ∀ d, a.value.head? = some d → isBlank d = false := by
  intro c hc a ha
  obtain ⟨front, back, hps⟩ := exists_append_of_mem_finds hc
  obtain ⟨-, rest, hspells⟩ := h.found front c back hps
  obtain ⟨after, -, hclosing⟩ := hspells.closing
  rw [ha] at hclosing
  exact hclosing.head_isBlank

theorem crlfBehind_quoted (before : Option Char) {head : List Char} (hhead : '\n' ∉ head)
    (key tail : List Char) : crlfBehind before (head ++ '"' :: (key ++ '"' :: tail)) =
      (crlfBehind (some '"') key && crlfBehind (some '"') tail) := by
  simp [crlfBehind_append, crlfBehind, crlfBehind_of_notMem before hhead]

theorem crlfBehind_typedTail (k : Lookup.Kind) {c : Call}
    (hvalue : ∀ a, c.argument = some a → ∀ d, a.value.head? = some d → isBlank d = false)
    (h : crlfBehind (some '"') (writtenTail c) = true) :
    crlfBehind (some '"') (typedTail k c) = true := by
  have htail : crlfBehind (some '"') (typedTail k c) = crlfBehind (some ' ') (c.default k) := by
    simp [typedTail, crlfBehind, crlfBehind_append]
  have hfallback : crlfBehind (some ' ') k.fallback.toList = true := by cases k <;> rfl
  rw [htail]
  unfold Call.default
  cases ha : c.argument with
  | none => exact hfallback
  | some a =>
    by_cases hempty : a.value.isEmpty = true
    · simpa only [hempty, if_true] using hfallback
    · simp only [hempty, Bool.false_eq_true, if_false]
      have hstart : a.value.head? ≠ some '\n' := fun heq =>
        absurd (hvalue a ha _ heq) (by decide)
      simp only [writtenTail, writtenArgument, ha, Argument.written, List.cons_append, crlfBehind,
        crlfBehind_append, Bool.and_eq_true] at h
      rw [crlfBehind_congr fun heq => absurd heq hstart]
      exact h.2.1.2

theorem crlfBehind_typed {lib : String} (hlib : isDottedIdentifier lib.toList = true)
    (k : Lookup.Kind)
    {c : Call} (hc : c.Fits)
    (hvalue : ∀ a, c.argument = some a → ∀ d, a.value.head? = some d → isBlank d = false)
    (before : Option Char) (h : crlfBehind before (c.written k) = true) :
    crlfBehind before (c.typed lib k) = true := by
  have hcontainer : '\n' ∉ c.container := fun hmem =>
    absurd (hc.dotted.isDottedChar _ hmem) (by decide)
  have hnames : '\n' ∉ k.wrapper.toList ∧ '\n' ∉ k.accessor.toList := by cases k <;> decide
  have hwritten : '\n' ∉ callHead k c.container := by simp [callHead, hcontainer, hnames.1]
  have htyped : '\n' ∉ typedHead lib k c := by
    simp [typedHead, hcontainer, hnames.2, notMem_dottedIdentifier hlib (c := '\n') (by decide)]
  rw [Call.written_eq_head, crlfBehind_quoted before hwritten, Bool.and_eq_true] at h
  rw [Call.typed_eq, crlfBehind_quoted before htyped, Bool.and_eq_true]
  exact ⟨h.1, crlfBehind_typedTail k hvalue h.2⟩

/-- If every find keeps its line ends and its last character, the whole text does. -/
theorem crlfBehind_render {α : Type} (spell spell' : α → List Char) {ps : List (Piece α)}
    (hends : ∀ a ∈ finds ps, ∀ before,
      crlfBehind before (spell a) = true → crlfBehind before (spell' a) = true)
    (hlast : ∀ a ∈ finds ps, ∀ before, lastOr before (spell' a) = lastOr before (spell a))
    (before : Option Char) :
    lastOr before (render spell' ps) = lastOr before (render spell ps) ∧
      (crlfBehind before (render spell ps) = true →
        crlfBehind before (render spell' ps) = true) := by
  induction ps generalizing before with
  | nil => exact ⟨rfl, id⟩
  | cons p ps ih =>
    cases p with
    | kept c =>
      obtain ⟨hlater, hlaterEnds⟩ := ih hends hlast (some c)
      refine ⟨by rw [render_kept, render_kept, lastOr_cons, lastOr_cons, hlater], ?_⟩
      simp only [render_kept, crlfBehind, Bool.and_eq_true]
      exact And.imp_right hlaterEnds
    | found a =>
      rw [finds_found, List.forall_mem_cons] at hends hlast
      obtain ⟨hlater, hlaterEnds⟩ := ih hends.2 hlast.2 (lastOr before (spell a))
      refine ⟨by rw [render_found, render_found, lastOr_append, lastOr_append, hlast.1, hlater], ?_⟩
      simp only [render_found, crlfBehind_append, Bool.and_eq_true, hlast.1]
      exact And.imp (hends.1 before) hlaterEnds

theorem crlf_lookup {lib : String} (hlib : isDottedIdentifier lib.toList = true) (k : Lookup.Kind)
    (cs : List Char) : ((Lookup.Rule.ofKind lib k).text cs).getLast? = cs.getLast? ∧
      (Crlf cs → Crlf ((Lookup.Rule.ofKind lib k).text cs)) := by
  have hdecomposes := decomposes_pieces lib k cs
  have hlast : ∀ c : Call, ∀ before,
      lastOr before (c.typed lib k) = lastOr before (c.written k) := by
    intro c before
    obtain ⟨typed, htyped⟩ := typed_ends lib k c
    obtain ⟨written, hwritten⟩ := written_ends k c
    rw [htyped, hwritten, lastOr_append, lastOr_append]
    rfl
  have hrender := crlfBehind_render (Call.written k) (Call.typed lib k)
    (fun c hc before =>
      crlfBehind_typed hlib k (hdecomposes.fits c hc) (hdecomposes.head_isBlank c hc) before)
    (fun c _ => hlast c) none
  rw [hdecomposes.spelled] at hrender
  rw [crlf_iff, crlf_iff]
  simp only [lastOr, Option.or_none] at hrender
  exact hrender

theorem crlf_lookups {lib : String} (hlib : isDottedIdentifier lib.toList = true)
    (ks : List Lookup.Kind) (cs : List Char) :
    (afterRules (lookupsOf lib ks) cs).getLast? = cs.getLast? ∧
      (Crlf cs → Crlf (afterRules (lookupsOf lib ks) cs)) := by
  induction ks generalizing cs with
  | nil => exact ⟨rfl, id⟩
  | cons k ks ih =>
    obtain ⟨hlast, hends⟩ := crlf_lookup hlib k cs
    obtain ⟨hlaterLast, hlaterEnds⟩ := ih ((Lookup.Rule.ofKind lib k).text cs)
    exact ⟨hlaterLast.trans hlast, fun h => hlaterEnds (hends h)⟩

end Lookups

/-! ## Guarded lines -/

open CastGuard.Downcast

theorem getLast?_trim {cs : List Char} {c : Char} (h : (trim cs).getLast? = some c) :
    isBlank c = false := by
  rw [trim, trimBack, List.getLast?_reverse] at h
  exact head?_dropWhile_false h

section Guarded

variable {types : List (List Char)} (htypes : ∀ t ∈ types, isIdentifier t = true)
  {g : Guard} (hholder : isIdentifier g.holder.toList = true) (hnull : '\n' ∉ g.null.toList)

include htypes in
theorem getLast?_written_iff {s : Statement} (hs : s.Fits types) :
    s.written.getLast? = some '\r' ↔ s.cast.trailing.getLast? = some '\r' := by
  have hsplit : s.written = (s.indent ++ (s.destination.written ++ s.cast.value) ++
      (" as ".toList ++ s.cast.type)) ++ s.cast.trailing := by
    simp [Statement.written, Cast.written]
  rw [hsplit, List.getLast?_append]
  cases htrailing : s.cast.trailing.getLast? with
  | some c => rfl
  | none =>
    rw [Option.none_or]
    refine iff_of_false (fun hlast => ?_) (by simp)
    exact absurd (getLast?_type htypes hs.cast.type_mem '\r' hlast) (by decide)

theorem getLast?_heldLine_iff (g : Guard) (s : Statement) :
    (s.heldLine g).getLast? = some '\r' ↔ s.cast.trailing.getLast? = some '\r' := by
  unfold Statement.heldLine
  split
  · next htrailing => simp [htrailing]
  · next htrailing =>
    refine iff_of_false (fun hlast => ?_) htrailing
    have hsplit : s.holding g = (s.indent ++ ("var ".toList ++ (s.destination.temporary ++
        (": ".toList ++ (g.holder.toList ++ " =".toList)))) ++ [' ']) ++ trim s.cast.value := by
      simp [Statement.holding]
    rw [List.append_nil, hsplit, List.getLast?_append] at hlast
    cases hvalue : (trim s.cast.value).getLast? with
    | some c =>
      obtain rfl : c = '\r' := by simpa [hvalue] using hlast
      exact absurd (getLast?_trim hvalue) (by decide)
    | none =>
      rw [hvalue, Option.none_or, List.getLast?_concat] at hlast
      exact absurd (Option.some.inj hlast) (by decide)

include htypes hholder hnull

theorem crlf_guarded_iff {s : Statement} (hs : s.Fits types) :
    Crlf (s.guarded g) ↔ s.written.getLast? = some '\r' := by
  have hheld : Crlf (s.heldLine g) :=
    crlf_iff.mpr (crlfBehind_of_notMem none (s.heldLine_line hs hholder))
  have htesting : Crlf (s.testing g) :=
    crlf_iff.mpr (crlfBehind_of_notMem none (s.testing_line htypes hs hnull))
  rw [s.guarded_eq_lines, crlf_append_lineEnd, getLast?_heldLine_iff,
    getLast?_written_iff htypes hs]
  exact ⟨fun h => h.2.1, fun h => ⟨hheld, h, htesting⟩⟩

/-- What a line becomes has bare line ends only if its cast is guarded and no carriage return ends
it. -/
theorem crlf_of_becomes {line : List Char} (hline : '\n' ∉ line)
    {out : Option Downcast.Form × List Char}
    (h : Becomes g types line out) :
    (Crlf out.2 ↔ line.getLast? = some '\r' ∨ ∀ f p, ¬ HasForm f types line p) ∧
      (line.getLast? = some '\r' → out.2.getLast? = some '\r') ∧ out.2.count '\n' ≤ 1 := by
  rcases h.guarded_or_kept with ⟨f, p, hp, rfl⟩ | ⟨hno, rfl⟩
  · obtain ⟨s, ⟨⟨-, hs, rfl⟩, -⟩, rfl⟩ := (hasForm_iff hline).mp hp
    rw [s.guarded_castLine]
    refine ⟨?_, ?_, ?_⟩
    · rw [crlf_guarded_iff htypes hholder hnull hs, or_iff_left fun hno => hno f _ hp]
    · intro hlast
      have htrailing := (getLast?_written_iff htypes hs).mp hlast
      have hsplit : ∃ front, s.guarded g = front ++ s.cast.trailing :=
        ⟨_, by simp only [Statement.guarded, Statement.testing, ← List.append_assoc]; rfl⟩
      obtain ⟨front, hfront⟩ := hsplit
      rw [hfront, List.getLast?_append, htrailing]
      rfl
    · rw [count_guarded htypes hholder hnull hs, List.count_eq_zero.mpr hline]
  · refine ⟨iff_of_true ?_ (.inr hno), id, ?_⟩
    · exact crlf_iff.mpr (crlfBehind_of_notMem none hline)
    · rw [List.count_eq_zero.mpr hline]
      exact Nat.zero_le 1

end Guarded

/-! ## The last line of a text -/

def lastLine (cs : List Char) : List Char := (parts '\n' cs).getLast (parts_ne_nil '\n' cs)

theorem lastLine_of_notMem {line : List Char} (h : '\n' ∉ line) : lastLine line = line := by
  simp [lastLine, parts_of_notMem h]

theorem lastLine_append (front back : List Char) :
    lastLine (front ++ '\n' :: back) = lastLine back := by
  simp only [lastLine, parts_append]
  exact List.getLast_append_of_ne_nil _ (parts_ne_nil '\n' back)

theorem lastLine_line (cs : List Char) : '\n' ∉ lastLine cs :=
  notMem_of_mem_parts '\n' (List.getLast_mem (parts_ne_nil '\n' cs))

theorem getLast?_lastLine {cs : List Char} {c : Char} (hc : c ≠ '\n') :
    (lastLine cs).getLast? = some c ↔ cs.getLast? = some c := by
  induction cs using parts_induction '\n' with
  | last line hline => rw [lastLine_of_notMem hline]
  | more line rest hline ih =>
    rw [lastLine_append, ih, List.getLast?_append, List.getLast?_cons]
    cases rest.getLast? with
    | none => simp [hc.symm]
    | some d => simp

theorem lastLine_eq_nil {cs : List Char} (h : cs.getLast? = some '\n') : lastLine cs = [] := by
  obtain ⟨front, rfl⟩ := List.getLast?_eq_some_iff.mp h
  rw [lastLine_append]
  rfl

/-- Whatever the lines of a text become, all but the last one keep their carriage returns. -/
theorem joined_lineEnds {types : List (List Char)} (htypes : ∀ t ∈ types, isIdentifier t = true)
    {g : Guard} (hholder : isIdentifier g.holder.toList = true) (hnull : '\n' ∉ g.null.toList)
    {cs : List Char} (hcs : Crlf cs) {outs : List (Option Downcast.Form × List Char)}
    (h : List.Forall₂ (Becomes g types) (parts '\n' cs) outs) :
    ∃ front out, joined '\n' (outs.map Prod.snd) = front ++ out.2 ∧
      Becomes g types (lastLine cs) out ∧ ∀ tail, Crlf (front ++ tail) ↔ Crlf tail := by
  induction cs using parts_induction '\n' generalizing outs with
  | last line hline =>
    rw [parts_of_notMem hline] at h
    obtain ⟨out, later, hout, hnil, rfl⟩ := List.forall₂_cons_left_iff.mp h
    obtain rfl := List.forall₂_nil_left_iff.mp hnil
    exact ⟨[], out, rfl, by rwa [lastLine_of_notMem hline], fun _ => Iff.rfl⟩
  | more line rest hline ih =>
    rw [parts_append_cons hline] at h
    obtain ⟨first, later, hfirst, hlater, rfl⟩ := List.forall₂_cons_left_iff.mp h
    obtain ⟨-, hlast, hrest⟩ := crlf_append_lineEnd.mp hcs
    obtain ⟨front, out, hjoined, hout, hfront⟩ := ih hrest hlater
    obtain ⟨hends, hfirstLast, -⟩ := crlf_of_becomes htypes hholder hnull hline hfirst
    have hne : later.map Prod.snd ≠ [] := by
      intro hnil
      obtain rfl := List.map_eq_nil_iff.mp hnil
      exact parts_ne_nil '\n' rest (List.forall₂_nil_right_iff.mp hlater)
    refine ⟨first.2 ++ '\n' :: front, out, ?_, by rwa [lastLine_append], ?_⟩
    · rw [List.map_cons, joined_cons hne, hjoined]
      simp
    · intro tail
      rw [List.append_assoc, List.cons_append, crlf_append_lineEnd, hfront]
      exact ⟨fun hall => hall.2.2, fun htail => ⟨hends.mpr (.inl hlast), hfirstLast hlast, htail⟩⟩

/-! ## All rules -/

/-- All rules together keep the carriage returns of a text, but for one place: if the last line has
no line end and no carriage return, and what the rules for look-ups make of it is guarded as a cast,
then the line end between its two lines is a bare one.  No other line end ever is. -/
theorem crlf_fixed_iff {s : Style} (hs : s.Sound) (hnull : '\n' ∉ s.null.toList) {cs : List Char}
    (hcs : Crlf cs) :
    Crlf (afterRules s.lookupRules cs) ∧
    (Crlf (afterRules s.rules cs) ↔ cs.getLast? = some '\r' ∨
      ∀ f p, ¬ HasForm f (s.types.map String.toList) (lastLine (afterRules s.lookupRules cs)) p) ∧
    (cs.getLast? = some '\n' → Crlf (afterRules s.rules cs)) ∧
    ∀ front back, afterRules s.rules cs = front ++ '\n' :: back → '\n' ∈ back →
      front.getLast? = some '\r' := by
  obtain ⟨hlib, hholder, -, -, hidentifiers⟩ := s.sound_iff.mp hs
  have htypes : ∀ t ∈ s.types.map String.toList, isIdentifier t = true := by
    intro t ht
    obtain ⟨u, hu, rfl⟩ := List.mem_map.mp ht
    exact hidentifiers u hu
  obtain ⟨hlooked, hkeeps⟩ := crlf_lookups hlib Lookup.Kind.all cs
  rw [← lookupRules_eq] at hlooked hkeeps
  obtain ⟨outs, houts, htext, -⟩ := pass_of_style hs hnull (afterRules s.lookupRules cs)
  obtain ⟨before, out, hjoined, hout, hbefore⟩ :=
    joined_lineEnds (g := s.guard) htypes hholder hnull (hkeeps hcs) houts
  obtain ⟨hends, -, hcount⟩ :=
    crlf_of_becomes (g := s.guard) htypes hholder hnull (lastLine_line _) hout
  rw [getLast?_lastLine (by decide), hlooked] at hends
  have hfixed : afterRules s.rules cs = before ++ out.2 := by
    rw [Style.rules, afterRules_append, htext, hjoined]
  have hiff : Crlf (afterRules s.rules cs) ↔ cs.getLast? = some '\r' ∨
      ∀ f p, ¬ HasForm f (s.types.map String.toList)
        (lastLine (afterRules s.lookupRules cs)) p := by
    rw [hfixed, hbefore, hends]
  refine ⟨hkeeps hcs, hiff, ?_, ?_⟩
  · intro hended
    refine hiff.mpr (.inr fun f p hp => ?_)
    rw [lastLine_eq_nil (hlooked.trans hended)] at hp
    exact absurd hp.line (by simp)
  · intro front back heq hmem
    rw [hfixed] at heq
    have honce : ∀ held, out.2 ≠ held ++ '\n' :: back := by
      intro held hout
      have hback := List.count_pos_iff.mpr hmem
      rw [hout, List.count_append, List.count_cons_self] at hcount
      omega
    rcases List.append_eq_append_iff.mp heq with ⟨held, -, hout⟩ | ⟨middle, hmiddle, hout⟩
    · exact absurd hout (honce held)
    · cases middle with
      | nil => exact absurd hout.symm (honce [])
      | cons c middle =>
        obtain ⟨rfl, -⟩ := List.cons.inj hout
        have hcrlf := (hbefore []).mpr fun _ _ hnil => absurd hnil (by simp)
        rw [List.append_nil] at hcrlf
        exact hcrlf front middle hmiddle

/-- Line ends in a key, in front of a default and behind blanks, and a last line with a carriage
return alone. -/
theorem crlf_fixed_iff_mixed :
    Style.standard.Sound ∧ '\n' ∉ Style.standard.null.toList ∧
    Crlf "return a as NPCData \r\nint(b.get(\"\r\n\",\r\n1))\r\nc = d as NPCData\r".toList ∧
    Crlf (afterRules Style.standard.rules
      "return a as NPCData \r\nint(b.get(\"\r\n\",\r\n1))\r\nc = d as NPCData\r".toList) ∧
    (trail Style.standard.rules
      "return a as NPCData \r\nint(b.get(\"\r\n\",\r\n1))\r\nc = d as NPCData\r".toList).map
        Step.fixes = [0, 1, 0, 0, 0, 1, 1] := by
  have hnull : '\n' ∉ Style.standard.null.toList := by decide
  have hcrlf : Crlf
      "return a as NPCData \r\nint(b.get(\"\r\n\",\r\n1))\r\nc = d as NPCData\r".toList := by
    decide +kernel
  have hfixed := (crlf_fixed_iff Style.standard_sound hnull hcrlf).2.1
  exact ⟨Style.standard_sound, hnull, hcrlf,
    hfixed.mpr (.inl (by decide +kernel)), by decide +kernel⟩

/-- The last line of a text with a carriage return in front of every line end.  It has neither
itself, and gets a bare line end. -/
theorem last_line_gets_bare_end :
    Style.standard.Sound ∧ '\r' ∉ Style.standard.null.toList ∧ '\n' ∉ Style.standard.null.toList ∧
    '\n' ∈ "foo()\r\nreturn x as ItemData".toList ∧ Crlf "foo()\r\nreturn x as ItemData".toList ∧
    (parts '\n' (afterRules Style.standard.rules "foo()\r\nreturn x as ItemData".toList)).map
      String.ofList =
      ["foo()\r", "var _return_res: Resource = x",
        "return _return_res if _return_res is ItemData else null"] ∧
    ¬ Crlf (afterRules Style.standard.rules "foo()\r\nreturn x as ItemData".toList) :=
  ⟨Style.standard_sound, by decide, by decide, by decide, by decide, by decide +kernel,
    by decide +kernel⟩

end CastGuard
