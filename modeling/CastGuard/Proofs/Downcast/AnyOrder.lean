/-
# `CastGuard.Proofs.Downcast.AnyOrder` — the forms in any order

The two lines that guard a cast are statements themselves, and the value that the first one holds
may end in a cast to a known type.  Still the rules for the three forms do not get in each other's
way: in whatever order they are applied, they leave the same text, and each makes the fixes that it
would make alone (`any_order`).

* A line has one form at most.  There is one exception, `return = value as Type`, which assigns to a
  target of that name and can as well be read as returning the value `= value`.  A text must not
  hold a line that starts so.
* Of two guarded lines, the first declares a variable of the holder's type and has no form.  The
  second starts like the line that it came from, so it has the form of that line or none.

Both are facts about single lines, and all rules work line by line.  Nothing is asked of the null
literal but that it holds no line end: where it makes the second line end in a cast, the rule that
could read it has done its work already.
-/
import CastGuard.Proofs.Downcast.Settled

namespace CastGuard.Downcast

open CastGuard.Text

/-! ## Lines that may be read under two forms -/

/-- Behind its indent the line assigns to a target named `return`, or returns what starts with an
equals sign. -/
def Ambiguous (line : List Char) : Prop := "return = ".toList <+: line.dropWhile isIndent

instance : DecidablePred Ambiguous := fun _ => inferInstanceAs (Decidable (_ <+: _))

section Destinations

variable {types : List (List Char)} {name t x y : List Char}

theorem variable_ne_caller :
    (Destination.variable name t).written ++ x ≠ Destination.caller.written ++ y := by
  simp

theorem isDottedChar_blank (cs : List Char) :
    ∀ c, (' ' :: cs).head? = some c → isDottedChar c = false := by
  intro c hc
  obtain rfl : ' ' = c := by simpa using hc
  rfl

/-- A variable is declared with a word behind `var`, where a target has its equals sign. -/
theorem variable_ne_target {target : List Char} (h : (Destination.variable name t).Fits types)
    (htarget : Dotted target) :
    (Destination.variable name t).written ++ x ≠ (Destination.target target).written ++ y := by
  intro heq
  obtain ⟨hne, hword, -⟩ := h
  obtain ⟨c, name, rfl⟩ := List.exists_cons_of_ne_nil hne
  have hsplit : "var".toList ++ ' ' :: c :: (name ++ (": ".toList ++ (t ++ (" = ".toList ++ x)))) =
      target ++ ' ' :: '=' :: ' ' :: y := by
    simpa using heq
  obtain ⟨-, htail⟩ := run_append_inj (p := isDottedChar) (forall_mem_of_all (by decide))
    (isDottedChar_blank _) htarget.isDottedChar (isDottedChar_blank _) hsplit
  obtain ⟨rfl, -⟩ := List.cons.inj (List.cons.inj htail).2
  exact absurd (hword '=' List.mem_cons_self) (by decide)

theorem target_of_caller {target : List Char} (htarget : Dotted target)
    (h : Destination.caller.written ++ x = (Destination.target target).written ++ y) :
    target = "return".toList := by
  have hsplit : "return".toList ++ ' ' :: x = target ++ ' ' :: '=' :: ' ' :: y := by simpa using h
  obtain ⟨hname, -⟩ := run_append_inj (p := isDottedChar) (forall_mem_of_all (by decide))
    (isDottedChar_blank _) htarget.isDottedChar (isDottedChar_blank _) hsplit
  exact hname.symm

theorem target_inj {target target' : List Char} (h : Dotted target) (h' : Dotted target')
    (heq : (Destination.target target).written ++ x = (Destination.target target').written ++ y) :
    target = target' := by
  have hsplit : target ++ ' ' :: '=' :: ' ' :: x = target' ++ ' ' :: '=' :: ' ' :: y := by
    simpa using heq
  exact (run_append_inj h.isDottedChar (isDottedChar_blank _) h'.isDottedChar (isDottedChar_blank _)
    hsplit).1

/-- Only the caller and a target named `return` can be taken for each other. -/
theorem caller_and_target {d d' : Destination} (hd : d.Fits types) (hd' : d'.Fits types)
    (hne : d.form ≠ d'.form) (h : d.written ++ x = d'.written ++ y) :
    d = .caller ∧ d' = .target "return".toList ∨ d = .target "return".toList ∧ d' = .caller := by
  rcases d with ⟨name, t⟩ | _ | name <;> rcases d' with ⟨name', t'⟩ | _ | name'
  · exact absurd rfl hne
  · exact absurd h variable_ne_caller
  · exact absurd h (variable_ne_target hd hd')
  · exact absurd h.symm variable_ne_caller
  · exact absurd rfl hne
  · exact .inl ⟨rfl, by rw [target_of_caller hd' h]⟩
  · exact absurd h.symm (variable_ne_target hd' hd)
  · exact .inr ⟨by rw [target_of_caller hd h.symm], rfl⟩
  · exact absurd rfl hne

end Destinations

section Lines

variable {types : List (List Char)} {s : Statement} (hs : s.Fits types)
include hs

theorem ambiguous_append_iff (x : List Char) :
    Ambiguous (s.indent ++ (s.destination.written ++ x)) ↔
    "return = ".toList <+: s.destination.written ++ x := by
  rw [Ambiguous, dropWhile_append_stop hs.indent (hs.destination.head_isIndent x)]

theorem ambiguous_of_target (h : s.destination = .target "return".toList) :
    Ambiguous s.written := by
  rw [Statement.written, ambiguous_append_iff hs, h]
  exact List.prefix_append _ _

theorem not_ambiguous_heldLine (g : Guard) : ¬ Ambiguous (s.heldLine g) := by
  obtain ⟨body, hbody⟩ := s.heldLine_eq_var g
  have hvar : ∀ c, ("var".toList ++ ' ' :: '_' :: body).head? = some c → isIndent c = false := by
    intro c hc
    obtain rfl : 'v' = c := by simpa using hc
    rfl
  rw [hbody, Ambiguous, dropWhile_append_stop hs.indent hvar]
  simp

omit hs in
theorem Reads.form_unique {f f' : Form} {line : List Char} {u : Statement}
    (h : Reads f types line s)
    (h' : Reads f' types line u) (hline : ¬ Ambiguous line) : f = f' := by
  by_contra hne
  obtain ⟨rfl, hs, rfl⟩ := h
  obtain ⟨rfl, hu, hwritten⟩ := h'
  obtain ⟨-, heq⟩ := run_append_inj hu.indent (hu.destination.head_isIndent _) hs.indent
    (hs.destination.head_isIndent _) hwritten
  rcases caller_and_target hs.destination hu.destination hne heq.symm with ⟨-, hd⟩ | ⟨hd, -⟩
  · exact hline (hwritten ▸ ambiguous_of_target hu hd)
  · exact hline (ambiguous_of_target hs hd)

omit hs in
theorem Statement.testing_eq (g : Guard) (s : Statement) : ∃ rest, s.testing g =
    s.indent ++ (s.destination.written ++ '_' :: rest) := by
  obtain ⟨rest, hrest⟩ := s.destination.temporary_head
  exact ⟨_, by rw [Statement.testing, hrest, List.cons_append]⟩

theorem not_ambiguous_testing (g : Guard) (h : ¬ Ambiguous s.written) :
    ¬ Ambiguous (s.testing g) := by
  obtain ⟨rest, hrest⟩ := s.testing_eq g
  rw [hrest, ambiguous_append_iff hs]
  rintro ⟨tail, htail⟩
  have hreturn : Dotted "return".toList := .of_isDotted (by decide)
  have hfits := hs.destination
  rcases hd : s.destination with ⟨name, t⟩ | _ | name <;> rw [hd] at htail hfits
  · exact variable_ne_target hfits hreturn htail.symm
  · simp at htail
  · rw [target_inj hfits hreturn htail.symm] at hd
    exact h (ambiguous_of_target hs hd)

theorem not_reads_testing_of_ne {f : Form} {g : Guard} {u : Statement}
    (hline : ¬ Ambiguous s.written)
    (hne : s.destination.form ≠ f) : ¬ Reads f types (s.testing g) u := by
  rintro ⟨rfl, hu, hwritten⟩
  obtain ⟨rest, hrest⟩ := s.testing_eq g
  rw [hrest] at hwritten
  obtain ⟨-, heq⟩ := run_append_inj hu.indent (hu.destination.head_isIndent _) hs.indent
    (hs.destination.head_isIndent _) hwritten
  rcases caller_and_target hs.destination hu.destination hne heq.symm with
    ⟨hcaller, htarget⟩ | ⟨hd, -⟩
  · rw [hcaller, htarget] at heq
    simp at heq
  · exact hline (ambiguous_of_target hs hd)

end Lines

/-! ## Two rules on a line -/

/-- What keeps the lines that a guard puts in from being read under another form. -/
structure Guard.Fresh (g : Guard) (types : List (List Char)) : Prop where
  typeChars : ∀ t ∈ types, ∀ c ∈ t, continuesIdentifier c = true
  holder : isIdentifier g.holder.toList = true
  unknown : g.holder.toList ∉ types
  null : '\n' ∉ g.null.toList

/-- The guard of a sound style is fresh, also for the empty text that stands in for missing types.
-/
theorem fresh_of_sound {s : Style} (hs : s.Sound) (hnull : '\n' ∉ s.null.toList) (f : Form) :
    s.guard.Fresh (Rule.mk f s.guard s.types).typeTexts := by
  obtain ⟨-, hholder, -, -, hidentifiers⟩ := s.sound_iff.mp hs
  by_cases hne : s.types = []
  · have htexts : (Rule.mk f s.guard s.types).typeTexts = [[]] := by rw [Rule.typeTexts, hne]; rfl
    rw [htexts]
    exact ⟨by simp, hholder,
      fun hmem => isIdentifier_ne_nil hholder (List.mem_singleton.mp hmem), hnull⟩
  · have hg := usable_of_sound hs hnull hne
    rw [hg.typeTexts]
    exact ⟨hg.typeChars, hholder, holder_notMem_types hs, hnull⟩

theorem Guard.Fresh.onLines {g : Guard} {r : Rule} (h : g.Fresh r.typeTexts) : r.OnLines :=
  fun t ht hmem => absurd (h.typeChars t ht _ hmem) (by decide)

section Pair

variable {g : Guard} {types : List String} (hg : ∀ f, g.Fresh (Rule.mk f g types).typeTexts)
include hg

variable {f f' : Form} {line : List Char} (hline : '\n' ∉ line) (hplain : ¬ Ambiguous line)
include hline hplain

/-- A rule has nothing to do with a line that another one guards, neither before nor after. -/
theorem quiet_beside (hne : f ≠ f') {s : Statement}
    (h : Guardable f' (Rule.mk f' g types).typeTexts line s) :
    ((Rule.mk f g types).text line = line ∧ (Rule.mk f g types).fixes line = 0) ∧
      (Rule.mk f g types).text (s.guarded g) = s.guarded g ∧
        (Rule.mk f g types).fixes (s.guarded g) = 0 := by
  obtain ⟨hreads, -⟩ := h
  have hs : s.Fits (Rule.mk f g types).typeTexts := hreads.fits
  refine ⟨Rule.on_not_guardable hline fun u hu => ?_, Rule.on_guarded (hg f).onLines
    (Rule.on_not_guardable ?_ fun u hu => ?_) (Rule.on_not_guardable ?_ fun u hu => ?_)⟩
  · exact hne (hu.1.form_unique hreads hplain)
  · exact s.heldLine_line hs (hg f).holder
  · exact not_reads_heldLine hs (hg f).typeChars (hg f).holder (hg f).unknown hu.1
  · exact s.testing_line_of_written hs (hreads.written ▸ hline) (hg f).null
  · exact not_reads_testing_of_ne hs (hreads.written ▸ hplain) (hreads.form ▸ hne.symm) hu.1

theorem fixes_text_line (hne : f ≠ f') :
    (Rule.mk f g types).fixes ((Rule.mk f' g types).text line) =
    (Rule.mk f g types).fixes line := by
  rcases (Rule.mk f' g types).on_line hline with ⟨s, hs, htext, -⟩ | ⟨htext, -⟩
  · obtain ⟨⟨-, hbefore⟩, -, hafter⟩ := quiet_beside hg hline hplain hne hs
    rw [htext, hafter, hbefore]
  · rw [htext]

theorem text_comm_line (hne : f ≠ f') : (Rule.mk f g types).text ((Rule.mk f' g types).text line) =
    (Rule.mk f' g types).text ((Rule.mk f g types).text line) := by
  rcases (Rule.mk f' g types).on_line hline with ⟨s, hs, htext', -⟩ | ⟨htext', -⟩
  · obtain ⟨⟨hbefore, -⟩, hafter, -⟩ := quiet_beside hg hline hplain hne hs
    rw [hbefore, htext']
    exact hafter
  · rcases (Rule.mk f g types).on_line hline with ⟨s, hs, htext, -⟩ | ⟨htext, -⟩
    · obtain ⟨-, hafter, -⟩ := quiet_beside hg hline hplain hne.symm hs
      rw [htext', htext]
      exact hafter.symm
    · rw [htext', htext, htext']

end Pair

/-! ## Texts -/

/-- No line of the text may be read under two forms. -/
def Unambiguous (cs : List Char) : Prop := ∀ line ∈ parts '\n' cs, ¬ Ambiguous line

theorem unambiguous_append {front back : List Char} :
    Unambiguous (front ++ '\n' :: back) ↔ Unambiguous front ∧ Unambiguous back := by
  rw [Unambiguous, parts_append]
  exact List.forall_mem_append

theorem unambiguous_line {line : List Char} (hline : '\n' ∉ line) :
    Unambiguous line ↔ ¬ Ambiguous line := by
  rw [Unambiguous, parts_of_notMem hline]
  exact List.forall_mem_singleton

def formRules (g : Guard) (types : List String) (fs : List Form) : List CastGuard.Rule :=
  fs.map fun f => .downcast ⟨f, g, types⟩

section Texts

variable {g : Guard} {types : List String} (hg : ∀ f, g.Fresh (Rule.mk f g types).typeTexts)
include hg

/-- The lines that a guard puts in are not ambiguous either. -/
theorem unambiguous_text_line (f : Form) {line : List Char} (hline : '\n' ∉ line)
    (hplain : ¬ Ambiguous line) : Unambiguous ((Rule.mk f g types).text line) := by
  rcases (Rule.mk f g types).on_line hline with ⟨s, ⟨⟨-, hs, hwritten⟩, -⟩, htext, -⟩ | ⟨htext, -⟩
  · have htesting := s.testing_line_of_written hs (hwritten ▸ hline) (hg f).null
    rw [htext, s.guarded_eq_lines, unambiguous_append,
      unambiguous_line (s.heldLine_line hs (hg f).holder), unambiguous_line htesting]
    exact ⟨not_ambiguous_heldLine hs g, not_ambiguous_testing hs g (hwritten ▸ hplain)⟩
  · rwa [htext, unambiguous_line hline]

theorem unambiguous_text (f : Form) {cs : List Char} (h : Unambiguous cs) :
    Unambiguous ((Rule.mk f g types).text cs) := by
  induction cs using parts_induction '\n' with
  | last line hline => exact unambiguous_text_line hg f hline ((unambiguous_line hline).mp h)
  | more line rest hline ih =>
    obtain ⟨hplain, hrest⟩ := unambiguous_append.mp h
    rw [Rule.text_append (hg f).onLines, unambiguous_append]
    exact ⟨unambiguous_text_line hg f hline ((unambiguous_line hline).mp hplain), ih hrest⟩

variable {f f' : Form} {cs : List Char} (hcs : Unambiguous cs)
include hcs

theorem fixes_text (hne : f ≠ f') :
    (Rule.mk f g types).fixes ((Rule.mk f' g types).text cs) = (Rule.mk f g types).fixes cs := by
  induction cs using parts_induction '\n' with
  | last line hline => exact fixes_text_line hg hline ((unambiguous_line hline).mp hcs) hne
  | more line rest hline ih =>
    obtain ⟨hplain, hrest⟩ := unambiguous_append.mp hcs
    have hfirst := fixes_text_line hg hline ((unambiguous_line hline).mp hplain) hne
    rw [Rule.text_append (hg f').onLines, Rule.fixes_append (hg f).onLines,
      Rule.fixes_append (hg f).onLines, hfirst, ih hrest]

theorem text_comm (f f' : Form) : (Rule.mk f g types).text ((Rule.mk f' g types).text cs) =
    (Rule.mk f' g types).text ((Rule.mk f g types).text cs) := by
  by_cases hne : f = f'
  · rw [hne]
  induction cs using parts_induction '\n' with
  | last line hline => exact text_comm_line hg hline ((unambiguous_line hline).mp hcs) hne
  | more line rest hline ih =>
    obtain ⟨hplain, hrest⟩ := unambiguous_append.mp hcs
    have hfirst := text_comm_line hg hline ((unambiguous_line hline).mp hplain) hne
    simp only [Rule.text_append (hg _).onLines]
    rw [hfirst, ih hrest]

omit hcs in
theorem afterRules_formRules_perm {fs fs' : List Form} (h : fs.Perm fs') {cs : List Char}
    (hcs : Unambiguous cs) :
    afterRules (formRules g types fs) cs = afterRules (formRules g types fs') cs := by
  induction h generalizing cs with
  | nil => rfl
  | cons f _ ih => exact ih (unambiguous_text hg f hcs)
  | swap f f' fs => exact congrArg (afterRules (formRules g types fs)) (text_comm hg hcs f f')
  | trans _ _ ih ih' => exact (ih hcs).trans (ih' hcs)

omit hcs in
/-- Applied one after the other, the rules of different forms each make the fixes they make alone.
-/
theorem fixes_formRules {fs : List Form} (hfs : fs.Nodup) {cs : List Char} (hcs : Unambiguous cs) :
    (trail (formRules g types fs) cs).map (fun step => (step.rule, step.fixes)) =
      fs.map fun f => (f.ruleId, (Rule.mk f g types).fixes cs) := by
  induction fs generalizing cs with
  | nil => rfl
  | cons f fs ih =>
    obtain ⟨hf, hlater⟩ := List.nodup_cons.mp hfs
    have hsteps := ih hlater (unambiguous_text hg f hcs)
    have halone : ∀ f' ∈ fs, (f'.ruleId, (Rule.mk f' g types).fixes ((Rule.mk f g types).text cs)) =
        (f'.ruleId, (Rule.mk f' g types).fixes cs) := by
      intro f' hf'
      have hne : f' ≠ f := fun heq => hf (heq ▸ hf')
      rw [fixes_text hg hcs hne]
    rw [List.map_congr_left halone] at hsteps
    exact congrArg (List.cons _) hsteps

end Texts

/-! ## The rules of a style -/

/-- In a text without lines that start like an assignment to a target named `return`, the order of
the three rules for casts is irrelevant.  All six leave the text that the order of the pass leaves,
and in each of them every rule makes the fixes that it makes alone. -/
theorem any_order {s : Style} (hs : s.Sound) (hnull : '\n' ∉ s.null.toList) {cs : List Char}
    (hcs : ∀ line ∈ parts '\n' cs, ¬ "return = ".toList <+: line.dropWhile isIndent)
    {fs : List Form} (hfs : fs.Perm Form.all) :
    afterRules (formRules s.guard s.types fs) cs =
      afterRules (formRules s.guard s.types Form.all) cs ∧
      (trail (formRules s.guard s.types fs) cs).map (fun step => (step.rule, step.fixes)) =
        (fs.map fun f => (f.ruleId, (Rule.mk f s.guard s.types).fixes cs)) ∧
      (s.types ≠ [] → s.downcastRules = formRules s.guard s.types Form.all) := by
  have hg : ∀ f, s.guard.Fresh (Rule.mk f s.guard s.types).typeTexts := fresh_of_sound hs hnull
  have hnodup : fs.Nodup := hfs.nodup_iff.mpr (by decide)
  exact ⟨afterRules_formRules_perm hg hfs hcs, fixes_formRules hg hnodup hcs, downcastRules_eq⟩

/-- A null literal that ends in a cast, a value that does, and names that read like keywords. -/
theorem any_order_backwards :
    (Style.mk "D" "Res" "0 as Npc" ["Npc", "Item"]).Sound ∧
    (parts '\n' (afterRules
        (formRules ⟨"Res", "0 as Npc"⟩ ["Npc", "Item"] [.assignment, .returning, .declaration])
        "var return: Npc = a as Item as Npc\nreturn b as Item\n\tvar = c as Npc".toList)).map
          String.ofList =
      ["var _return_res: Res = a as Item",
        "var return: Npc = _return_res if _return_res is Npc else 0 as Npc",
        "var _return_res: Res = b", "return _return_res if _return_res is Item else 0 as Npc",
        "\tvar _loaded_res: Res = c", "\tvar = _loaded_res if _loaded_res is Npc else 0 as Npc"] ∧
    (trail (formRules ⟨"Res", "0 as Npc"⟩ ["Npc", "Item"] [.assignment, .returning, .declaration])
        "var return: Npc = a as Item as Npc\nreturn b as Item\n\tvar = c as Npc".toList).map
          (fun step => (step.rule, step.fixes)) =
      [("cast.assignment", 1), ("cast.return", 1), ("cast.declaration", 1)] := by
  have hsound : (Style.mk "D" "Res" "0 as Npc" ["Npc", "Item"]).Sound := by decide +kernel
  have hplain : ∀ line ∈ parts '\n'
      "var return: Npc = a as Item as Npc\nreturn b as Item\n\tvar = c as Npc".toList,
      ¬ "return = ".toList <+: line.dropWhile isIndent := by decide +kernel
  have hfs : [Form.assignment, .returning, .declaration].Perm Form.all := by decide
  obtain ⟨htext, hfixes, -⟩ := any_order hsound (by decide) hplain hfs
  have hlines := congrArg (fun out => (parts '\n' out).map String.ofList) htext
  exact ⟨hsound, hlines.trans (by decide +kernel), hfixes.trans (by decide +kernel)⟩

/-- A value that is returned, or one that is assigned to a target named `return`. -/
example : afterRules (formRules ⟨"Resource", "null"⟩ ["NPCData"] [.assignment, .returning])
      "return = a as NPCData".toList ≠
    afterRules (formRules ⟨"Resource", "null"⟩ ["NPCData"] [.returning, .assignment])
      "return = a as NPCData".toList := by
  decide +kernel

end CastGuard.Downcast
