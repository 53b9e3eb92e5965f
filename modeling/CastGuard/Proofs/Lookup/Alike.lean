/-
# `CastGuard.Proofs.Lookup.Alike` — text that calls do not see

A call is recognised by its quotes, parentheses and comma, by a head without blanks and by the
blanks behind its comma.  A stretch of text is inert if it can be none of that: it holds no quote,
parenthesis or comma, ends in a blank and is not all blank.  Two texts are alike if they are the
same up to the exchange of inert stretches, and texts that are alike hold calls of the same kinds
(`Alike.hasCall_iff`).

The line end at the end of a line makes the last stretch of a line inert, so lines are compared with
their line ends; `hasCall_append_lineEnd` says that adding one to a text makes no difference.
-/
import CastGuard.Proofs.Lookup.Occurrence
import Mathlib.Data.List.Basic
import Mathlib.Data.List.Induction

namespace CastGuard.Lookup

open CastGuard.Text

/-- The characters that make up the frame of a call. -/
def isFrame (c : Char) : Bool := c == '"' || c == '(' || c == ')' || c == ','

/-- A stretch of text that no call can start, end or be told by. -/
structure Inert (cs : List Char) : Prop where
  frame : ∀ c ∈ cs, isFrame c = false
  last : ∃ c, cs.getLast? = some c ∧ isBlank c = true
  solid : ∃ c ∈ cs, isBlank c = false

theorem Inert.ne_nil {cs : List Char} (h : Inert cs) : cs ≠ [] := by
  rintro rfl
  obtain ⟨c, hc, -⟩ := h.last
  exact absurd hc (by simp)

theorem inert_append_blanks {cs blanks : List Char} (hframe : ∀ c ∈ cs, isFrame c = false)
    (hsolid : ∃ c ∈ cs, isBlank c = false) (hne : blanks ≠ [])
    (hblank : ∀ c ∈ blanks, isBlank c = true) : Inert (cs ++ blanks) := by
  refine ⟨?_, ?_, ?_⟩
  · intro c hc
    rcases List.mem_append.mp hc with hc | hc
    · exact hframe c hc
    · rw [← Bool.not_eq_true]
      intro hframe
      simp only [isFrame, Bool.or_eq_true, beq_iff_eq] at hframe
      rcases hframe with ((rfl | rfl) | rfl) | rfl
      all_goals exact absurd (hblank _ hc) (by decide)
  · refine ⟨blanks.getLast hne, ?_, hblank _ (List.getLast_mem hne)⟩
    rw [List.getLast?_append_of_ne_nil _ hne, List.getLast?_eq_some_getLast hne]
  · obtain ⟨c, hc, hblank⟩ := hsolid
    exact ⟨c, List.mem_append_left _ hc, hblank⟩

/-- The texts are the same up to inert stretches. -/
inductive Alike : List Char → List Char → Prop
  | nil : Alike [] []
  | same (c : Char) {x y : List Char} : Alike x y → Alike (c :: x) (c :: y)
  | inert {a b x y : List Char} : Inert a → Inert b → Alike x y → Alike (a ++ x) (b ++ y)

theorem Alike.refl (x : List Char) : Alike x x := by
  induction x with
  | nil => exact .nil
  | cons c x ih => exact .same c ih

theorem Alike.symm {x y : List Char} (h : Alike x y) : Alike y x := by
  induction h with
  | nil => exact .nil
  | same c _ ih => exact .same c ih
  | inert ha hb _ ih => exact .inert hb ha ih

theorem Alike.append {x y x' y' : List Char} (h : Alike x y) (h' : Alike x' y') :
    Alike (x ++ x') (y ++ y') := by
  induction h with
  | nil => exact h'
  | same c _ ih => exact .same c ih
  | inert ha hb _ ih =>
    rw [List.append_assoc, List.append_assoc]
    exact .inert ha hb ih

/-! ## Cutting texts that are alike -/

/-- Frames are never part of an inert stretch, so both texts can be cut at one. -/
theorem Alike.split {q : Char} (hq : isFrame q = true) (front : List Char) {rest y : List Char}
    (h : Alike (front ++ q :: rest) y) :
    ∃ front' rest', y = front' ++ q :: rest' ∧ Alike front front' ∧ Alike rest rest' := by
  generalize hx : front ++ q :: rest = x at h
  induction h generalizing front with
  | nil => exact absurd hx (by simp)
  | @same c x y hxy ih =>
    cases front with
    | nil =>
      obtain ⟨rfl, rfl⟩ := List.cons.inj hx
      exact ⟨[], y, rfl, .nil, hxy⟩
    | cons d front =>
      obtain ⟨rfl, htail⟩ := List.cons.inj hx
      obtain ⟨front', rest', rfl, hfront, hrest⟩ := ih front htail
      exact ⟨d :: front', rest', rfl, .same d hfront, hrest⟩
  | @inert a b x y ha hb hxy ih =>
    rcases List.append_eq_append_iff.mp hx with ⟨mid, rfl, hmid⟩ | ⟨mid, rfl, hmid⟩
    · cases mid with
      | nil =>
        obtain ⟨front', rest', rfl, hfront, hrest⟩ := ih [] hmid
        refine ⟨b ++ front', rest', by simp, ?_, hrest⟩
        have := Alike.inert ha hb hfront
        simpa using this
      | cons d mid =>
        -- the frame would be in the stretch
        obtain ⟨rfl, -⟩ := List.cons.inj hmid
        exact absurd (ha.frame q (by simp)) (by simp [hq])
    · obtain ⟨front', rest', rfl, hfront, hrest⟩ := ih mid hmid.symm
      exact ⟨b ++ front', rest', by simp, .inert ha hb hfront, hrest⟩

theorem Alike.eq_nil {x y : List Char} (h : Alike x y) (hx : x = []) : y = [] := by
  cases h with
  | nil => rfl
  | same c _ => exact absurd hx (by simp)
  | inert ha _ _ => exact absurd (List.append_eq_nil_iff.mp hx).1 ha.ne_nil

/-- Both texts can be cut before a last character that is no blank. -/
theorem Alike.concat {d : Char} (hd : isBlank d = false) (x : List Char) {z : List Char}
    (h : Alike (x ++ [d]) z) : ∃ y, z = y ++ [d] ∧ Alike x y := by
  generalize hx : x ++ [d] = x' at h
  induction h generalizing x with
  | nil => exact absurd hx (by simp)
  | @same c x' y hxy ih =>
    cases x with
    | nil =>
      obtain ⟨rfl, hnil⟩ := List.cons.inj hx
      obtain rfl := hxy.eq_nil hnil.symm
      exact ⟨[], rfl, .nil⟩
    | cons e x =>
      obtain ⟨rfl, htail⟩ := List.cons.inj hx
      obtain ⟨y', rfl, hy⟩ := ih x htail
      exact ⟨e :: y', rfl, .same e hy⟩
  | @inert a b x' y ha hb hxy ih =>
    obtain rfl | ⟨x'', e, rfl⟩ := List.eq_nil_or_concat' x'
    · -- the stretch would end in the character
      obtain ⟨c, hc, hblank⟩ := ha.last
      rw [List.append_nil] at hx
      rw [← hx, List.getLast?_concat, Option.some.injEq] at hc
      exact absurd hblank (by simp [← hc, hd])
    · rw [← List.append_assoc] at hx
      obtain ⟨rfl, he⟩ := List.append_inj' hx rfl
      obtain rfl : d = e := by simpa using he
      obtain ⟨y', rfl, hy⟩ := ih x'' rfl
      exact ⟨b ++ y', by simp, .inert ha hb hy⟩

theorem Alike.append_run {run : List Char} (hrun : ∀ d ∈ run, isBlank d = false) (x : List Char)
    {z : List Char} (h : Alike (x ++ run) z) : ∃ y, z = y ++ run ∧ Alike x y := by
  induction run using List.reverseRecOn generalizing z with
  | nil => exact ⟨z, by simp, by simpa using h⟩
  | append_singleton run d ih =>
    rw [← List.append_assoc] at h
    obtain ⟨y, rfl, hy⟩ := Alike.concat (hrun d (by simp)) _ h
    obtain ⟨y, rfl, hy'⟩ := ih (fun e he => hrun e (by simp [he])) hy
    exact ⟨y, by simp, hy'⟩

theorem Alike.cons {d : Char} (hd : isFrame d = true) {x z : List Char}
    (h : Alike (d :: x) z) : ∃ y, z = d :: y ∧ Alike x y := by
  generalize hx : d :: x = x' at h
  cases h with
  | nil => exact absurd hx (by simp)
  | @same c x' y hxy =>
    obtain ⟨rfl, rfl⟩ := List.cons.inj hx
    exact ⟨y, rfl, hxy⟩
  | @inert a b x' y ha hb hxy =>
    obtain ⟨e, a, rfl⟩ := List.exists_cons_of_ne_nil ha.ne_nil
    obtain ⟨rfl, -⟩ := List.cons.inj hx
    exact absurd (ha.frame d List.mem_cons_self) (by simp [hd])

theorem Alike.eq_of_blank {x y : List Char} (h : Alike x y) (hx : ∀ c ∈ x, isBlank c = true) :
    y = x := by
  induction h with
  | nil => rfl
  | same c _ ih => rw [ih fun d hd => hx d (List.mem_cons_of_mem _ hd)]
  | @inert a b x y ha _ _ _ =>
    obtain ⟨c, hc, hsolid⟩ := ha.solid
    exact absurd (hx c (List.mem_append_left _ hc)) (by simp [hsolid])

theorem Alike.mem_frame {q : Char} (hq : isFrame q = true) {x y : List Char} (h : Alike x y)
    (hy : q ∈ y) : q ∈ x := by
  obtain ⟨front, rest, rfl⟩ := List.append_of_mem hy
  obtain ⟨front', rest', rfl, -, -⟩ := h.symm.split hq front
  simp

theorem joinsWord_append {a b x y : List Char}
    (hab : joinsWord a.getLast? = joinsWord b.getLast?)
    (hxy : joinsWord x.getLast? = joinsWord y.getLast?) (hnil : x = [] ↔ y = []) :
    joinsWord (a ++ x).getLast? = joinsWord (b ++ y).getLast? := by
  by_cases hx : x = []
  · rw [hx, hnil.mp hx, List.append_nil, List.append_nil, hab]
  · have hy : y ≠ [] := fun hy => hx (hnil.mpr hy)
    rw [List.getLast?_append_of_ne_nil _ hx, List.getLast?_append_of_ne_nil _ hy, hxy]

theorem Inert.joinsWord {a : List Char} (h : Inert a) : joinsWord a.getLast? = false := by
  obtain ⟨c, hc, hblank⟩ := h.last
  rw [hc]
  exact isWord_of_isBlank hblank

theorem Alike.joinsWord {x y : List Char} (h : Alike x y) :
    joinsWord x.getLast? = joinsWord y.getLast? := by
  induction h with
  | nil => rfl
  | same c hxy ih =>
    exact joinsWord_append (a := [c]) (b := [c]) rfl ih ⟨hxy.eq_nil, hxy.symm.eq_nil⟩
  | inert ha hb hxy ih =>
    exact joinsWord_append (ha.joinsWord.trans hb.joinsWord.symm) ih ⟨hxy.eq_nil, hxy.symm.eq_nil⟩

/-! ## Calls -/

theorem isFrame_of_not_isPlain {c : Char} (h : isPlain c = false) : isFrame c = true := by
  by_cases hopen : c = '('
  · rw [hopen]
    rfl
  · by_cases hclose : c = ')'
    · rw [hclose]
      rfl
    · exact absurd h (by simp [isPlain, hopen, hclose])

theorem Alike.plain {x y : List Char} (h : Alike x y) (hx : ∀ c ∈ x, isPlain c = true) :
    ∀ c ∈ y, isPlain c = true := by
  intro c hc
  rw [← Bool.not_eq_false]
  intro hplain
  have hmem := h.mem_frame (isFrame_of_not_isPlain hplain) hc
  rw [hx c hmem] at hplain
  exact absurd hplain (by decide)

theorem Alike.unquoted {x y : List Char} (h : Alike x y) (hx : '"' ∉ x) : '"' ∉ y :=
  fun hy => hx (h.mem_frame rfl hy)

theorem Alike.closes {k : Kind} {x y : List Char} (h : Alike x y) (hx : Closes k x) :
    Closes k y := by
  have close : ∀ {x y : List Char}, Alike (')' :: ')' :: x) y → ∃ z, y = ')' :: ')' :: z := by
    intro x y h
    obtain ⟨y, rfl, hsecond⟩ := h.cons rfl
    obtain ⟨z, rfl, -⟩ := hsecond.cons rfl
    exact ⟨z, rfl⟩
  cases hx with
  | bare rest =>
    obtain ⟨y, rfl⟩ := close h
    exact .bare y
  | @plain value rest hplain =>
    obtain ⟨y, rfl, hcomma⟩ := h.cons rfl
    obtain ⟨value', y, rfl, hvalue, hclose⟩ := hcomma.split rfl value
    obtain ⟨z, rfl, -⟩ := hclose.cons rfl
    exact .plain z (hvalue.plain hplain)
  | @quoted blanks inner rest hk hblank hinner =>
    obtain ⟨y, rfl, hcomma⟩ := h.cons rfl
    obtain ⟨blanks', y, rfl, hblanks, hliteral⟩ := hcomma.split rfl blanks
    obtain ⟨inner', y, rfl, hinner', hclose⟩ := hliteral.split rfl inner
    obtain ⟨z, rfl⟩ := close hclose
    obtain rfl := hblanks.eq_of_blank hblank
    exact .quoted z hk hblank (hinner'.unquoted hinner)

theorem not_isBlank_of_isWord {c : Char} (h : isWord c = true) : isBlank c = false := by
  rw [← Bool.not_eq_true]
  intro hblank
  rw [isWord_of_isBlank hblank] at h
  exact absurd h (by decide)

theorem not_isBlank_callHead (k : Kind) {container : List Char} (h : Dotted container) :
    ∀ d ∈ callHead k container, isBlank d = false := by
  have hwrapper : ∀ d ∈ k.wrapper.toList, isBlank d = false := by
    cases k <;> exact forall_mem_of_all (by decide)
  have hget : ∀ d ∈ ".get(".toList, isBlank d = false := forall_mem_of_all (by decide)
  intro d hd
  simp only [callHead, List.mem_append, List.mem_cons] at hd
  rcases hd with hd | rfl | hd | hd
  · exact hwrapper d hd
  · decide
  · have hdotted := h.isDottedChar d hd
    simp only [isDottedChar, Bool.or_eq_true, beq_iff_eq] at hdotted
    rcases hdotted with hword | rfl
    · exact not_isBlank_of_isWord hword
    · decide
  · exact hget d hd

theorem Alike.hasCall {k : Kind} {x y : List Char} (h : Alike x y) (hx : HasCall k x) :
    HasCall k y := by
  obtain ⟨front, container, key, tail, hword, hdotted, hne, hkey, hcloses, rfl⟩ :=
    hasCall_iff.mp hx
  rw [← List.append_assoc] at h
  obtain ⟨head, rest, rfl, hhead, hrest⟩ := h.split rfl (front ++ callHead k container)
  obtain ⟨key', tail', rfl, hkey', htail⟩ := hrest.split rfl key
  obtain ⟨front', rfl, hfront⟩ := hhead.append_run (not_isBlank_callHead k hdotted) front
  refine hasCall_iff.mpr ⟨front', container, key', tail', ?_, hdotted, ?_, hkey'.unquoted hkey,
    htail.closes hcloses, by simp⟩
  · rw [← hfront.joinsWord]
    exact hword
  · exact fun hnil => hne (hkey'.symm.eq_nil hnil)

theorem Alike.hasCall_iff {k : Kind} {x y : List Char} (h : Alike x y) :
    HasCall k x ↔ HasCall k y := ⟨h.hasCall, h.symm.hasCall⟩

/-! ## A last line end -/

theorem Closes.append {k : Kind} {cs : List Char} (h : Closes k cs) (more : List Char) :
    Closes k (cs ++ more) := by
  cases h with
  | bare rest => exact .bare (rest ++ more)
  | plain rest hplain =>
    have := Closes.plain (k := k) (rest ++ more) hplain
    simpa using this
  | quoted rest hk hblank hinner =>
    have := Closes.quoted (rest ++ more) hk hblank hinner
    simpa using this

/-- A last line end stands behind every parenthesis. -/
theorem concat_lineEnd {cs front rest : List Char} (h : front ++ ')' :: rest = cs ++ ['\n']) :
    ∃ back, rest = back ++ ['\n'] ∧ cs = front ++ ')' :: back := by
  obtain rfl | ⟨back, d, rfl⟩ := List.eq_nil_or_concat' rest
  · obtain ⟨-, hlast⟩ := List.append_inj' h rfl
    exact absurd hlast (by decide)
  · rw [← List.cons_append, ← List.append_assoc] at h
    obtain ⟨rfl, hlast⟩ := List.append_inj' h rfl
    exact ⟨back, by rw [hlast], rfl⟩

theorem Closes.of_concat_lineEnd {k : Kind} {cs : List Char} (h : Closes k (cs ++ ['\n'])) :
    Closes k cs := by
  generalize hx : cs ++ ['\n'] = x at h
  cases h with
  | bare rest =>
    obtain ⟨back, -, rfl⟩ := concat_lineEnd (show [')'] ++ ')' :: rest = cs ++ ['\n'] from hx.symm)
    exact .bare back
  | @plain value rest hplain =>
    have hlast : (',' :: (value ++ [')'])) ++ ')' :: rest = cs ++ ['\n'] := by simp [hx]
    obtain ⟨back, -, rfl⟩ := concat_lineEnd hlast
    have := Closes.plain (k := k) back hplain
    simpa using this
  | @quoted blanks inner rest hk hblank hinner =>
    have hlast : (',' :: (blanks ++ '"' :: (inner ++ ['"', ')']))) ++ ')' :: rest =
        cs ++ ['\n'] := by simp [hx]
    obtain ⟨back, -, rfl⟩ := concat_lineEnd hlast
    have := Closes.quoted back hk hblank hinner
    simpa using this

theorem hasCall_append_lineEnd {k : Kind} {cs : List Char} :
    HasCall k (cs ++ ['\n']) ↔ HasCall k cs := by
  rw [hasCall_iff, hasCall_iff]
  constructor
  · rintro ⟨front, container, key, tail, hword, hdotted, hne, hkey, hcloses, heq⟩
    obtain rfl | ⟨tail, d, rfl⟩ := List.eq_nil_or_concat' tail
    · generalize hnil : ([] : List Char) = x at hcloses
      cases hcloses <;> exact absurd hnil (by simp)
    · have hlast : (front ++ (callHead k container ++ '"' :: (key ++ '"' :: tail))) ++ [d] =
          cs ++ ['\n'] := by simp [heq]
      obtain ⟨rfl, hd⟩ := List.append_inj' hlast rfl
      rw [hd] at hcloses
      exact ⟨front, container, key, tail, hword, hdotted, hne, hkey, hcloses.of_concat_lineEnd,
        rfl⟩
  · rintro ⟨front, container, key, tail, hword, hdotted, hne, hkey, hcloses, rfl⟩
    exact ⟨front, container, key, tail ++ ['\n'], hword, hdotted, hne, hkey, hcloses.append _,
      by simp⟩

end CastGuard.Lookup
