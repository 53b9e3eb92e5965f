/-
# `CastGuard.Proofs.Downcast.Pass` — guarding casts is a map over lines

The three rules for casts, applied in turn, act on every line of a text by itself.  `HasForm` spells
out the three forms of line with all their parts in the open, and `Becomes` says what a line turns
into:

    indent destination value as type trailing
      ⟶  indent var temporary: holder = value
          indent destination temporary if temporary is type else null trailing

for the first form that the line has, and the line itself if it has none.  The rules see each
other's output, and the argument is that this makes no difference: a line that one rule emits is
never of a later form (`CastGuard.Proofs.Downcast.Emitted`).

Main statement: `downcast_pass_linewise`, for sound styles whose null literal holds no line end.
-/
import CastGuard.Proofs.Downcast.Emitted
import Mathlib.Data.List.Forall2
import Mathlib.Logic.ExistsUnique

namespace CastGuard.Downcast

open CastGuard.Text

/-! ## Forms of line -/

/-- The parts of a line that ends in a cast.  The destination is all that stands between the indent
and the blank before the value. -/
structure CastLine where
  indent : List Char
  destination : List Char
  temporary : List Char
  value : List Char
  type : List Char
  trailing : List Char

/-- What stands in front of a value of the given type, and the temporary that goes with it. -/
def Slot (type : List Char) : Form → List Char → List Char → Prop
  | .declaration, destination, temporary => ∃ name, name ≠ [] ∧ (∀ c ∈ name, isWord c = true) ∧
      destination = "var ".toList ++ (name ++ (": ".toList ++ (type ++ " =".toList))) ∧
      temporary = '_' :: (name ++ "_res".toList)
  | .returning, destination, temporary =>
      destination = "return".toList ∧ temporary = "_return_res".toList
  | .assignment, destination, temporary => ∃ name, Dotted name ∧
      destination = name ++ " =".toList ∧ temporary = "_loaded_res".toList

/-- The line has the form `f`, with the parts `p`. -/
structure HasForm (f : Form) (types : List (List Char)) (line : List Char) (p : CastLine) :
    Prop where
  indent : ∀ c ∈ p.indent, isIndent c = true
  slot : Slot p.type f p.destination p.temporary
  value : p.value ≠ []
  type : p.type ∈ types
  trailing : ∀ c ∈ p.trailing, isTrailing c = true
  line : line = p.indent ++ (p.destination ++ ' ' :: (p.value ++ (" as ".toList ++
    (p.type ++ p.trailing))))

/-- The line end that the trailing blanks of a line call for. -/
def CastLine.lineEnd (p : CastLine) : List Char :=
  if p.trailing.getLast? = some '\r' then "\r\n".toList else "\n".toList

def CastLine.guarded (g : Guard) (p : CastLine) : List Char :=
  p.indent ++ ("var ".toList ++ (p.temporary ++ (": ".toList ++ (g.holder.toList ++
    (" = ".toList ++ (trim p.value ++ (p.lineEnd ++ (p.indent ++ (p.destination ++ ' ' ::
      (p.temporary ++ (" if ".toList ++ (p.temporary ++ (" is ".toList ++ (p.type ++
        (" else ".toList ++ (g.null.toList ++ p.trailing))))))))))))))))

/-- What a line becomes: the form under which it is replaced, if any, and the text.  Forms are tried
in the order in which their rules are applied. -/
inductive Becomes (g : Guard) (types : List (List Char)) (line : List Char) :
    Option Form × List Char → Prop
  | declared {p : CastLine} : HasForm .declaration types line p →
      Becomes g types line (some .declaration, p.guarded g)
  | returned {p : CastLine} : (∀ q, ¬ HasForm .declaration types line q) →
      HasForm .returning types line p → Becomes g types line (some .returning, p.guarded g)
  | assigned {p : CastLine} : (∀ q, ¬ HasForm .declaration types line q) →
      (∀ q, ¬ HasForm .returning types line q) → HasForm .assignment types line p →
      Becomes g types line (some .assignment, p.guarded g)
  | kept : (∀ f q, ¬ HasForm f types line q) → Becomes g types line (none, line)

/-! ## Forms of line and statements -/

/-- The spelling of a destination without its last blank. -/
def Destination.slot : Destination → List Char
  | .variable name type => "var ".toList ++ (name ++ (": ".toList ++ (type ++ " =".toList)))
  | .caller => "return".toList
  | .target name => name ++ " =".toList

@[simp]
theorem Destination.slot_variable (name type : List Char) :
    (Destination.variable name type).slot =
      "var ".toList ++ (name ++ (": ".toList ++ (type ++ " =".toList))) := rfl

@[simp]
theorem Destination.slot_caller : Destination.caller.slot = "return".toList := rfl

@[simp]
theorem Destination.slot_target (name : List Char) :
    (Destination.target name).slot = name ++ " =".toList := rfl

theorem Destination.written_eq_slot (d : Destination) (cs : List Char) :
    d.written ++ cs = d.slot ++ ' ' :: cs := by
  rcases d with ⟨name, t⟩ | _ | name <;> simp

/-- The parts of the line that a statement is written on. -/
def Statement.castLine (s : Statement) : CastLine :=
  ⟨s.indent, s.destination.slot, s.destination.temporary, s.cast.value, s.cast.type,
    s.cast.trailing⟩

theorem Statement.guarded_castLine (g : Guard) (s : Statement) :
    s.castLine.guarded g = s.guarded g := by
  have hend : s.castLine.lineEnd = s.cast.lineEnd := rfl
  rw [CastLine.guarded, hend]
  simp [Statement.castLine, Statement.guarded, Statement.holding, Statement.testing,
    Destination.written_eq_slot]

/-- A line has a form if it is a statement of the form whose cast can be guarded. -/
theorem hasForm_iff {f : Form} {types : List (List Char)} {line : List Char} {p : CastLine}
    (hline : '\n' ∉ line) :
    HasForm f types line p ↔ ∃ s, Guardable f types line s ∧ s.castLine = p := by
  constructor
  · rcases p with ⟨indent, destination, temporary, value, type, trailing⟩
    rintro ⟨hindent, hslot, hvalue, htype, htrailing, heq⟩
    have hvalue_line : '\n' ∉ value := fun hmem => hline (by simp [heq, hmem])
    have hcast : (⟨value, type, trailing⟩ : Cast).Fits types :=
      ⟨hvalue, hvalue_line, htype, htrailing⟩
    have statement : ∀ d : Destination, d.form = f → d.Fits types → d.slot = destination →
        d.temporary = temporary → (⟨indent, d, ⟨value, type, trailing⟩⟩ : Statement).consistent →
        ∃ s, Guardable f types line s ∧
          s.castLine = ⟨indent, destination, temporary, value, type, trailing⟩ := by
      rintro d hform hd rfl rfl hconsistent
      refine ⟨⟨indent, d, ⟨value, type, trailing⟩⟩, ⟨⟨hform, ⟨hindent, hd, hcast⟩, ?_⟩,
        hconsistent⟩, rfl⟩
      rw [heq, Statement.written, Destination.written_eq_slot]
      rfl
    cases f with
    | declaration =>
      obtain ⟨name, hne, hword, hdestination, htemporary⟩ := hslot
      exact statement (.variable name type) rfl ⟨hne, hword, htype⟩ hdestination.symm
        htemporary.symm (beq_self_eq_true type)
    | returning =>
      obtain ⟨hdestination, htemporary⟩ := hslot
      exact statement .caller rfl trivial hdestination.symm htemporary.symm rfl
    | assignment =>
      obtain ⟨name, hname, hdestination, htemporary⟩ := hslot
      exact statement (.target name) rfl hname hdestination.symm htemporary.symm rfl
  · rintro ⟨⟨indent, d, k⟩, ⟨⟨hform, ⟨hindent, hd, hcast⟩, hwritten⟩, hconsistent⟩, rfl⟩
    refine ⟨hindent, ?_, hcast.value_ne_nil, hcast.type_mem, hcast.trailing, ?_⟩
    · rcases d with ⟨name, t⟩ | _ | name
      · obtain rfl := hform
        obtain rfl : t = k.type := by simpa [Statement.consistent] using hconsistent
        exact ⟨name, hd.1, hd.2.1, rfl, rfl⟩
      · obtain rfl := hform
        exact ⟨rfl, rfl⟩
      · obtain rfl := hform
        exact ⟨name, hd, rfl, rfl⟩
    · rw [← hwritten, Statement.written, Destination.written_eq_slot]
      rfl

/-- A line has a form in one way only. -/
theorem HasForm.unique {f : Form} {types : List (List Char)}
    (htypes : ∀ t ∈ types, isIdentifier t = true) {line : List Char} (hline : '\n' ∉ line)
    {p q : CastLine} (hp : HasForm f types line p) (hq : HasForm f types line q) : p = q := by
  obtain ⟨s, ⟨hs, -⟩, rfl⟩ := (hasForm_iff hline).mp hp
  obtain ⟨u, ⟨hu, -⟩, rfl⟩ := (hasForm_iff hline).mp hq
  rw [hs.unique htypes hu]

theorem Becomes.unique {g : Guard} {types : List (List Char)}
    (htypes : ∀ t ∈ types, isIdentifier t = true) {line : List Char} (hline : '\n' ∉ line)
    {out out' : Option Form × List Char} (h : Becomes g types line out)
    (h' : Becomes g types line out') : out = out' := by
  have same : ∀ {f : Form} {p q : CastLine}, HasForm f types line p → HasForm f types line q →
      (some f, p.guarded g) = (some f, q.guarded g) :=
    fun hp hq => by rw [hp.unique htypes hline hq]
  cases h with
  | declared hp =>
    cases h' with
    | declared hq => exact same hp hq
    | returned hno _ => exact absurd hp (hno _)
    | assigned hno _ _ => exact absurd hp (hno _)
    | kept hno => exact absurd hp (hno _ _)
  | returned hnodeclared hp =>
    cases h' with
    | declared hq => exact absurd hq (hnodeclared _)
    | returned _ hq => exact same hp hq
    | assigned _ hno _ => exact absurd hp (hno _)
    | kept hno => exact absurd hp (hno _ _)
  | assigned hnodeclared hnoreturned hp =>
    cases h' with
    | declared hq => exact absurd hq (hnodeclared _)
    | returned _ hq => exact absurd hq (hnoreturned _)
    | assigned _ _ hq => exact same hp hq
    | kept hno => exact absurd hp (hno _ _)
  | kept hno =>
    cases h' with
    | declared hq => exact absurd hq (hno _ _)
    | returned _ hq => exact absurd hq (hno _ _)
    | assigned _ _ hq => exact absurd hq (hno _ _)
    | kept _ => rfl

theorem exists_becomes (g : Guard) (types : List (List Char)) (line : List Char) :
    ∃ out, Becomes g types line out := by
  by_cases hdeclared : ∃ p, HasForm .declaration types line p
  · obtain ⟨p, hp⟩ := hdeclared
    exact ⟨_, .declared hp⟩
  by_cases hreturned : ∃ p, HasForm .returning types line p
  · obtain ⟨p, hp⟩ := hreturned
    exact ⟨_, .returned (not_exists.mp hdeclared) hp⟩
  by_cases hassigned : ∃ p, HasForm .assignment types line p
  · obtain ⟨p, hp⟩ := hassigned
    exact ⟨_, .assigned (not_exists.mp hdeclared) (not_exists.mp hreturned) hp⟩
  refine ⟨_, .kept ?_⟩
  intro f
  cases f with
  | declaration => exact not_exists.mp hdeclared
  | returning => exact not_exists.mp hreturned
  | assignment => exact not_exists.mp hassigned

/-- A line is guarded under a form that it has, or it has none and is kept. -/
theorem Becomes.guarded_or_kept {g : Guard} {types : List (List Char)} {line : List Char}
    {out : Option Form × List Char} (h : Becomes g types line out) :
    (∃ f p, HasForm f types line p ∧ out = (some f, p.guarded g)) ∨
      (∀ f p, ¬ HasForm f types line p) ∧ out = (none, line) := by
  cases h with
  | declared hp => exact .inl ⟨_, _, hp, rfl⟩
  | returned _ hp => exact .inl ⟨_, _, hp, rfl⟩
  | assigned _ _ hp => exact .inl ⟨_, _, hp, rfl⟩
  | kept hno => exact .inr ⟨hno, rfl⟩

/-! ## One line under the three rules -/

def textBefore (g : Guard) (types : List String) : Form → List Char → List Char
  | .declaration, cs => cs
  | .returning, cs => (Rule.mk .declaration g types).text cs
  | .assignment, cs =>
    (Rule.mk .returning g types).text ((Rule.mk .declaration g types).text cs)

/-- The fixes that the rule of a form makes in its turn. -/
def passFixes (g : Guard) (types : List String) (f : Form) (cs : List Char) : Nat :=
  (Rule.mk f g types).fixes (textBefore g types f cs)

def passText (g : Guard) (types : List String) (cs : List Char) : List Char :=
  (Rule.mk .assignment g types).text (textBefore g types .assignment cs)

/-- What the three rules ask of a guard and its types. -/
structure Guard.Usable (g : Guard) (types : List String) : Prop where
  types_ne_nil : types ≠ []
  types : ∀ t ∈ types, isIdentifier t.toList = true
  holder : isIdentifier g.holder.toList = true
  null : '\n' ∉ g.null.toList

section Line

variable {g : Guard} {types : List String} (hg : g.Usable types)
include hg

theorem Guard.Usable.typeTexts (f : Form) :
    (Rule.mk f g types).typeTexts = types.map String.toList :=
  if_neg (by simpa using hg.types_ne_nil)

theorem Guard.Usable.identifiers : ∀ t ∈ types.map String.toList, isIdentifier t = true := by
  intro t ht
  obtain ⟨u, hu, rfl⟩ := List.mem_map.mp ht
  exact hg.types u hu

theorem Guard.Usable.typeChars :
    ∀ t ∈ types.map String.toList, ∀ c ∈ t, continuesIdentifier c = true :=
  fun t ht => continues_of_mem_identifier (hg.identifiers t ht)

theorem Guard.Usable.known (f : Form) : (Rule.mk f g types).Known := by
  rw [Rule.Known, hg.typeTexts]
  exact hg.identifiers

theorem text_guarded {f : Form} {s : Statement} (hs : s.Fits (types.map String.toList))
    (hheld : ∀ u, ¬ Reads f (types.map String.toList) (s.heldLine g) u)
    (htesting : ∀ u, ¬ Reads f (types.map String.toList) (s.testing g) u) :
    (Rule.mk f g types).text (s.guarded g) = s.guarded g ∧
      (Rule.mk f g types).fixes (s.guarded g) = 0 := by
  have quiet : ∀ {line : List Char}, '\n' ∉ line →
      (∀ u, ¬ Reads f (types.map String.toList) line u) →
      (Rule.mk f g types).text line = line ∧ (Rule.mk f g types).fixes line = 0 := by
    intro line hline hno
    refine Rule.on_not_guardable hline fun u hu => hno u ?_
    rw [hg.typeTexts] at hu
    exact hu.1
  exact Rule.on_guarded (hg.known f).onLines (quiet (s.heldLine_line hs hg.holder) hheld)
    (quiet (s.testing_line hg.identifiers hs hg.null) htesting)

theorem text_of_hasForm {f : Form} {line : List Char} (hline : '\n' ∉ line) {p : CastLine}
    (h : HasForm f (types.map String.toList) line p) :
    ∃ s : Statement, s.Fits (types.map String.toList) ∧ s.destination.form = f ∧
      p.guarded g = s.guarded g ∧ (Rule.mk f g types).text line = s.guarded g ∧
      (Rule.mk f g types).fixes line = 1 := by
  obtain ⟨s, hs, rfl⟩ := (hasForm_iff hline).mp h
  have hguardable : Guardable f (Rule.mk f g types).typeTexts line s := by
    rwa [hg.typeTexts]
  obtain ⟨htext, hfixes⟩ := Rule.on_guardable (hg.known f) hguardable
  exact ⟨s, hs.1.fits, hs.1.form, s.guarded_castLine g, htext, hfixes⟩

theorem text_of_not_hasForm {f : Form} {line : List Char} (hline : '\n' ∉ line)
    (h : ∀ p, ¬ HasForm f (types.map String.toList) line p) :
    (Rule.mk f g types).text line = line ∧ (Rule.mk f g types).fixes line = 0 := by
  refine Rule.on_not_guardable hline fun s hs => ?_
  rw [hg.typeTexts] at hs
  exact h _ ((hasForm_iff hline).mpr ⟨s, hs, rfl⟩)

/-- The rules make of a line what it becomes, and count a fix for the form that applies. -/
theorem pass_of_becomes {line : List Char} (hline : '\n' ∉ line)
    {out : Option Form × List Char} (h : Becomes g (types.map String.toList) line out) :
    passText g types line = out.2 ∧
      ∀ f, passFixes g types f line = if out.1 = some f then 1 else 0 := by
  cases h with
  | declared hp =>
    obtain ⟨s, hs, hform, hguarded, htext, hfixes⟩ := text_of_hasForm hg hline hp
    obtain ⟨hreturn, hreturnFixes⟩ := text_guarded hg hs
      (fun u => not_reads_returning_heldLine hs) fun u => not_reads_returning_testing hs hform
    obtain ⟨hassign, hassignFixes⟩ := text_guarded hg hs
      (fun u => not_reads_assignment_heldLine hs) fun u =>
        not_reads_assignment_testing hs (by simp [hform])
    refine ⟨by simp [passText, textBefore, htext, hreturn, hassign, hguarded], ?_⟩
    intro f
    cases f with
    | declaration => simp [passFixes, textBefore, hfixes]
    | returning => simp [passFixes, textBefore, htext, hreturnFixes]
    | assignment => simp [passFixes, textBefore, htext, hreturn, hassignFixes]
  | returned hnodeclared hp =>
    obtain ⟨hdeclare, hdeclareFixes⟩ := text_of_not_hasForm hg hline hnodeclared
    obtain ⟨s, hs, hform, hguarded, htext, hfixes⟩ := text_of_hasForm hg hline hp
    obtain ⟨hassign, hassignFixes⟩ := text_guarded hg hs
      (fun u => not_reads_assignment_heldLine hs) fun u =>
        not_reads_assignment_testing hs (by simp [hform])
    refine ⟨by simp [passText, textBefore, hdeclare, htext, hassign, hguarded], ?_⟩
    intro f
    cases f with
    | declaration => simp [passFixes, textBefore, hdeclareFixes]
    | returning => simp [passFixes, textBefore, hdeclare, hfixes]
    | assignment => simp [passFixes, textBefore, hdeclare, htext, hassignFixes]
  | assigned hnodeclared hnoreturned hp =>
    obtain ⟨hdeclare, hdeclareFixes⟩ := text_of_not_hasForm hg hline hnodeclared
    obtain ⟨hreturn, hreturnFixes⟩ := text_of_not_hasForm hg hline hnoreturned
    obtain ⟨s, hs, hform, hguarded, htext, hfixes⟩ := text_of_hasForm hg hline hp
    refine ⟨by simp [passText, textBefore, hdeclare, hreturn, htext, hguarded], ?_⟩
    intro f
    cases f with
    | declaration => simp [passFixes, textBefore, hdeclareFixes]
    | returning => simp [passFixes, textBefore, hdeclare, hreturnFixes]
    | assignment => simp [passFixes, textBefore, hdeclare, hreturn, hfixes]
  | kept hno =>
    have quiet := fun f => text_of_not_hasForm hg hline (hno f)
    refine ⟨by simp [passText, textBefore, (quiet _).1], ?_⟩
    intro f
    cases f with
    | declaration => simp [passFixes, textBefore, (quiet _).2]
    | returning => simp [passFixes, textBefore, (quiet _).1, (quiet _).2]
    | assignment => simp [passFixes, textBefore, (quiet _).1, (quiet _).2]

/-! ## All lines of a text -/

theorem textBefore_append (f : Form) (front back : List Char) :
    textBefore g types f (front ++ '\n' :: back) =
      textBefore g types f front ++ '\n' :: textBefore g types f back := by
  cases f with
  | declaration => rfl
  | returning => exact Rule.text_append (hg.known _).onLines front back
  | assignment =>
    simp only [textBefore]
    rw [Rule.text_append (hg.known _).onLines, Rule.text_append (hg.known _).onLines]

theorem passText_append (front back : List Char) :
    passText g types (front ++ '\n' :: back) =
      passText g types front ++ '\n' :: passText g types back := by
  unfold passText
  rw [textBefore_append hg, Rule.text_append (hg.known _).onLines]

theorem passFixes_append (f : Form) (front back : List Char) :
    passFixes g types f (front ++ '\n' :: back) =
      passFixes g types f front + passFixes g types f back := by
  unfold passFixes
  rw [textBefore_append hg, Rule.fixes_append (hg.known _).onLines]

/-- What relates a line to what it becomes relates a text to what the pass leaves, if it is kept
when texts are put together at a line end. -/
theorem passText_induction {R : List Char → List Char → Prop}
    (becomes : ∀ line out, '\n' ∉ line →
      Becomes g (types.map String.toList) line out → R line out.2)
    (append : ∀ line rest line' rest', R line line' → R rest rest' →
      R (line ++ '\n' :: rest) (line' ++ '\n' :: rest')) (cs : List Char) :
    R cs (passText g types cs) := by
  have on_line : ∀ line, '\n' ∉ line → R line (passText g types line) := by
    intro line hline
    obtain ⟨out, hout⟩ := exists_becomes g (types.map String.toList) line
    rw [(pass_of_becomes hg hline hout).1]
    exact becomes line out hline hout
  induction cs using parts_induction '\n' with
  | last line hline => exact on_line line hline
  | more line rest hline ih =>
    rw [passText_append hg]
    exact append line rest _ _ (on_line line hline) ih

/-- The pass is the map that `Becomes` describes, line by line. -/
theorem pass_lines (cs : List Char) :
    ∃ outs, List.Forall₂ (Becomes g (types.map String.toList)) (parts '\n' cs) outs ∧
      passText g types cs = joined '\n' (outs.map Prod.snd) ∧
      ∀ f, passFixes g types f cs = outs.countP fun out => out.1 = some f := by
  induction cs using parts_induction '\n' with
  | last line hline =>
    obtain ⟨out, hout⟩ := exists_becomes g (types.map String.toList) line
    obtain ⟨htext, hfixes⟩ := pass_of_becomes hg hline hout
    refine ⟨[out], parts_of_notMem hline ▸ .cons hout .nil, htext, ?_⟩
    intro f
    simp [hfixes, List.countP_cons]
  | more line rest hline ih =>
    obtain ⟨out, hout⟩ := exists_becomes g (types.map String.toList) line
    obtain ⟨htext, hfixes⟩ := pass_of_becomes hg hline hout
    obtain ⟨outs, houts, hrestText, hrestFixes⟩ := ih
    have hne : outs.map Prod.snd ≠ [] := by
      intro hnil
      obtain rfl := List.map_eq_nil_iff.mp hnil
      exact parts_ne_nil '\n' rest (List.forall₂_nil_right_iff.mp houts)
    refine ⟨out :: outs, ?_, ?_, ?_⟩
    · rw [parts_append_cons hline]
      exact .cons hout houts
    · rw [passText_append hg, htext, hrestText, List.map_cons, joined_cons hne]
    · intro f
      rw [passFixes_append hg, hfixes, hrestFixes, List.countP_cons]
      simp [Nat.add_comm]

end Line

theorem sumOf_countP_forms (outs : List (Option Form × List Char)) :
    sumOf (fun f => outs.countP fun out => out.1 = some f) Form.all =
      outs.countP fun out => out.1.isSome := by
  induction outs with
  | nil => rfl
  | cons out outs ih =>
    obtain ⟨f, text⟩ := out
    simp only [Form.all, sumOf_cons, sumOf_nil, List.countP_cons] at ih ⊢
    rcases f with _ | (_ | _ | _) <;> simp at ih ⊢ <;> omega

/-! ## The pass of a style -/

theorem usable_of_sound {s : Style} (hs : s.Sound) (hnull : '\n' ∉ s.null.toList)
    (hne : s.types ≠ []) : s.guard.Usable s.types := by
  obtain ⟨-, hholder, -, -, htypes⟩ := s.sound_iff.mp hs
  exact ⟨hne, htypes, hholder, hnull⟩

theorem holder_notMem_types {s : Style} (hs : s.Sound) :
    s.guard.holder.toList ∉ s.types.map String.toList := by
  obtain ⟨-, -, -, hholder, -⟩ := s.sound_iff.mp hs
  intro hmem
  obtain ⟨t, ht, heq⟩ := List.mem_map.mp hmem
  obtain rfl : t = s.holder := String.toList_inj.mp heq
  exact hholder ht

theorem downcastRules_eq {s : Style} (hne : s.types ≠ []) :
    s.downcastRules = Form.all.map fun f => .downcast ⟨f, s.guard, s.types⟩ := by
  rw [Style.downcastRules, Downcast.rules, if_neg (by simpa using hne), List.map_map]
  rfl

theorem afterRules_downcastRules {s : Style} (hne : s.types ≠ []) (cs : List Char) :
    afterRules s.downcastRules cs = passText s.guard s.types cs := by
  rw [downcastRules_eq hne]
  rfl

theorem fixes_downcastRules {s : Style} (hne : s.types ≠ []) (cs : List Char) :
    (trail s.downcastRules cs).map (fun step => (step.rule, step.fixes)) =
      Form.all.map fun f => (f.ruleId, passFixes s.guard s.types f cs) := by
  rw [downcastRules_eq hne]
  rfl

theorem pass_without_types {s : Style} (h : s.types = []) (cs : List Char) :
    s.downcastRules = [] ∧
      List.Forall₂ (Becomes s.guard (s.types.map String.toList)) (parts '\n' cs)
        ((parts '\n' cs).map (none, ·)) := by
  constructor
  · rw [Style.downcastRules, Downcast.rules, h]
    rfl
  · rw [List.forall₂_map_right_iff, List.forall₂_same]
    exact fun line _ => .kept fun f p hp => absurd hp.type (by simp [h])

theorem pass_of_style {s : Style} (hs : s.Sound) (hnull : '\n' ∉ s.null.toList) (cs : List Char) :
    ∃ outs, List.Forall₂ (Becomes s.guard (s.types.map String.toList)) (parts '\n' cs) outs ∧
      afterRules s.downcastRules cs = joined '\n' (outs.map Prod.snd) ∧
      (∀ step ∈ trail s.downcastRules cs, ∃ f : Form, step.rule = f.ruleId ∧
        step.fixes = outs.countP fun out => out.1 = some f) ∧
      trailFixes (trail s.downcastRules cs) = outs.countP fun out => out.1.isSome := by
  by_cases hne : s.types = []
  · obtain ⟨hrules, hlines⟩ := pass_without_types hne cs
    refine ⟨_, hlines, ?_, ?_, ?_⟩
    · rw [List.map_map, Function.comp_def, List.map_id', joined_parts, hrules]
      rfl
    · simp [hrules, trail]
    · simp [hrules, trail, trailFixes, List.countP_map, Function.comp_def]
  · obtain ⟨outs, houts, htext, hfixes⟩ := pass_lines (usable_of_sound hs hnull hne) cs
    have hcounts : (trail s.downcastRules cs).map (fun step => (step.rule, step.fixes)) =
        Form.all.map fun f => (f.ruleId, outs.countP fun out => out.1 = some f) := by
      rw [fixes_downcastRules hne]
      exact List.map_congr_left fun f _ => by rw [hfixes]
    refine ⟨outs, houts, (afterRules_downcastRules hne cs).trans htext, ?_, ?_⟩
    · intro step hstep
      have hmem := List.mem_map_of_mem (f := fun step : Step => (step.rule, step.fixes)) hstep
      rw [hcounts] at hmem
      obtain ⟨f, -, heq⟩ := List.mem_map.mp hmem
      obtain ⟨hrule, hstepFixes⟩ := Prod.mk.inj heq
      exact ⟨f, hrule.symm, hstepFixes.symm⟩
    · have hsum := congrArg (sumOf Prod.snd) hcounts
      rw [sumOf_map, sumOf_map] at hsum
      rw [← sumOf_countP_forms]
      exact hsum

/-- The rules for casts are a map over the lines of a text.  Each line becomes what `Becomes` says,
in one way only; each rule counts the lines replaced under its form, and together they count every
replaced line once. -/
theorem downcast_pass_linewise {s : Style} (hs : s.Sound) (hnull : '\n' ∉ s.null.toList)
    (cs : List Char) :
    (∃ outs, List.Forall₂ (Becomes s.guard (s.types.map String.toList)) (parts '\n' cs) outs ∧
      afterRules s.downcastRules cs = joined '\n' (outs.map Prod.snd) ∧
      (∀ step ∈ trail s.downcastRules cs, ∃ f : Form, step.rule = f.ruleId ∧
        step.fixes = outs.countP fun out => out.1 = some f) ∧
      trailFixes (trail s.downcastRules cs) = outs.countP fun out => out.1.isSome) ∧
    ∀ line, '\n' ∉ line →
      (∀ f p q, HasForm f (s.types.map String.toList) line p →
        HasForm f (s.types.map String.toList) line q → p = q) ∧
      ∃! out, Becomes s.guard (s.types.map String.toList) line out := by
  have htypes : ∀ t ∈ s.types.map String.toList, isIdentifier t = true := by
    obtain ⟨-, -, -, -, hidentifiers⟩ := s.sound_iff.mp hs
    intro t ht
    obtain ⟨u, hu, rfl⟩ := List.mem_map.mp ht
    exact hidentifiers u hu
  refine ⟨pass_of_style hs hnull cs, ?_⟩
  intro line hline
  refine ⟨fun f p q hp hq => hp.unique htypes hline hq, ?_⟩
  obtain ⟨out, hout⟩ := exists_becomes s.guard (s.types.map String.toList) line
  exact ⟨out, hout, fun out' hout' => hout'.unique htypes hline hout⟩

/-- Two lines: a declaration with a cast inside its value, and what looks like an assignment but
returns. -/
def twoCasts : List Char :=
  "\tvar a: ItemData = f(b as ItemData) as ItemData\r\nreturn = c as NPCData".toList

/-- The same with both casts guarded. -/
def twoGuards : List Char :=
  "\tvar _a_res: Resource = f(b as ItemData)\r\n".toList ++
    "\tvar a: ItemData = _a_res if _a_res is ItemData else null\r\n".toList ++
    "var _return_res: Resource = = c\n".toList ++
    "return _return_res if _return_res is NPCData else null".toList

/-- Each of the lines becomes two and counts once. -/
theorem downcast_pass_linewise_standard :
    Style.standard.Sound ∧ '\n' ∉ Style.standard.null.toList ∧
    (∃ outs, List.Forall₂ (Becomes Style.standard.guard (Style.standard.types.map String.toList))
        (parts '\n' twoCasts) outs ∧
      joined '\n' (outs.map Prod.snd) = twoGuards ∧
      (outs.countP fun out => out.1.isSome) = 2) ∧
    afterRules Style.standard.downcastRules twoCasts = twoGuards ∧
    (∀ line, '\n' ∉ line →
      ∃! out, Becomes Style.standard.guard (Style.standard.types.map String.toList) line out) := by
  have hnull : '\n' ∉ Style.standard.null.toList := by decide
  have htwo : afterRules Style.standard.downcastRules twoCasts = twoGuards := by decide +kernel
  have hfixes : trailFixes (trail Style.standard.downcastRules twoCasts) = 2 := by decide +kernel
  obtain ⟨⟨outs, houts, htext, -, hcount⟩, hunique⟩ :=
    downcast_pass_linewise Style.standard_sound hnull twoCasts
  exact ⟨Style.standard_sound, hnull,
    ⟨outs, houts, htext.symm.trans htwo, hcount.symm.trans hfixes⟩,
    htwo, fun line hline => (hunique line hline).2⟩

end CastGuard.Downcast
