/-
# `CastGuard.Proofs.Text.Runs` — where runs and separated parts end

Recognisers cut a text where a class of characters stops.  The first section says that such a cut is
forced: a run of the class followed by something outside it is read back whole, and a text can be
divided at the first character outside the class in one way only.

The second section is the same for parts.  A text is divided at every separator, so it can be taken
one part at a time.  Lines are the parts of a text at its line ends.
-/
import CastGuard.Text.Parts

namespace CastGuard.Text

/-! ## Runs of a class -/

section Runs

variable {p : Char → Bool} {front rest : List Char}

theorem takeWhile_append_stop (hfront : ∀ c ∈ front, p c = true)
    (hrest : ∀ c, rest.head? = some c → p c = false) : (front ++ rest).takeWhile p = front := by
  rw [List.takeWhile_append_of_pos hfront]
  cases rest with
  | nil => simp
  | cons c cs => simp [hrest c rfl]

theorem dropWhile_append_stop (hfront : ∀ c ∈ front, p c = true)
    (hrest : ∀ c, rest.head? = some c → p c = false) : (front ++ rest).dropWhile p = rest := by
  rw [List.dropWhile_append_of_pos hfront]
  cases rest with
  | nil => rfl
  | cons c cs => simp [hrest c rfl]

theorem takeWhile_append_outside {sep : Char} (hsep : p sep = false) (front back : List Char) :
    (front ++ sep :: back).takeWhile p = front.takeWhile p := by
  induction front with
  | nil => simp [hsep]
  | cons c front ih => simp only [List.cons_append, List.takeWhile_cons, ih]

theorem dropWhile_append_outside {sep : Char} (hsep : p sep = false) (front back : List Char) :
    (front ++ sep :: back).dropWhile p = front.dropWhile p ++ sep :: back := by
  induction front with
  | nil => simp [hsep]
  | cons c front ih =>
    simp only [List.cons_append, List.dropWhile_cons, ih]
    split <;> rfl

theorem head?_dropWhile_false {cs : List Char} {c : Char}
    (h : (cs.dropWhile p).head? = some c) : p c = false := by
  induction cs with
  | nil => simp at h
  | cons d cs ih =>
    rw [List.dropWhile_cons] at h
    split at h
    · exact ih h
    · next hd =>
      obtain rfl : d = c := by simpa using h
      simpa using hd

/-- A text is divided at the first character outside a class in one way only. -/
theorem run_append_inj {front' rest' : List Char} (hfront : ∀ c ∈ front, p c = true)
    (hrest : ∀ c, rest.head? = some c → p c = false) (hfront' : ∀ c ∈ front', p c = true)
    (hrest' : ∀ c, rest'.head? = some c → p c = false) (h : front ++ rest = front' ++ rest') :
    front = front' ∧ rest = rest' := by
  have hf := congrArg (List.takeWhile p) h
  have hr := congrArg (List.dropWhile p) h
  rw [takeWhile_append_stop hfront hrest, takeWhile_append_stop hfront' hrest'] at hf
  rw [dropWhile_append_stop hfront hrest, dropWhile_append_stop hfront' hrest'] at hr
  exact ⟨hf, hr⟩

theorem append_run_inj {front' rest' : List Char} (hrest : ∀ c ∈ rest, p c = true)
    (hfront : ∀ c, front.getLast? = some c → p c = false) (hrest' : ∀ c ∈ rest', p c = true)
    (hfront' : ∀ c, front'.getLast? = some c → p c = false) (h : front ++ rest = front' ++ rest') :
    front = front' ∧ rest = rest' := by
  have hrev : rest.reverse ++ front.reverse = rest'.reverse ++ front'.reverse := by
    rw [← List.reverse_append, ← List.reverse_append, h]
  obtain ⟨hr, hf⟩ := run_append_inj (p := p) (by simpa using hrest) (by simpa using hfront)
    (by simpa using hrest') (by simpa using hfront') hrev
  exact ⟨List.reverse_inj.mp hf, List.reverse_inj.mp hr⟩

/-- A text with a character outside a class, cut at the last one. -/
theorem exists_last_not {cs : List Char} {c : Char} (hc : c ∈ cs) (hp : p c = false) :
    ∃ core d run, cs = core ++ d :: run ∧ p d = false ∧ ∀ e ∈ run, p e = true := by
  induction cs generalizing c with
  | nil => exact absurd hc List.not_mem_nil
  | cons b cs ih =>
    by_cases h : ∃ e ∈ cs, p e = false
    · obtain ⟨e, he, hpe⟩ := h
      obtain ⟨core, d, run, rfl, hd, hrun⟩ := ih he hpe
      exact ⟨b :: core, d, run, rfl, hd, hrun⟩
    · have hall : ∀ e ∈ cs, p e = true := by
        intro e he
        rw [← Bool.not_eq_false]
        exact fun hpe => h ⟨e, he, hpe⟩
      rcases List.mem_cons.mp hc with rfl | hmem
      · exact ⟨[], c, cs, rfl, hp, hall⟩
      · exact absurd (hall c hmem) (by simp [hp])

end Runs

/-- What stands before the first `c` of a text, and what stands behind it, is determined. -/
theorem append_cons_inj {c : Char} {front rest front' rest' : List Char} (hfront : c ∉ front)
    (hfront' : c ∉ front') (h : front ++ c :: rest = front' ++ c :: rest') :
    front = front' ∧ rest = rest' := by
  have inside : ∀ {cs : List Char}, c ∉ cs → ∀ d ∈ cs, (d != c) = true := by
    intro cs hc d hd
    exact bne_iff_ne.mpr fun hdc => hc (hdc ▸ hd)
  have stop : ∀ cs : List Char, ∀ d, (c :: cs).head? = some d → (d != c) = false := by simp
  obtain ⟨hf, hr⟩ := run_append_inj (inside hfront) (stop rest) (inside hfront') (stop rest') h
  exact ⟨hf, (List.cons.inj hr).2⟩

/-- Two ways to cut a text at `c`, the first of them at the first `c`: the second cuts there as well
or further back. -/
theorem append_cons_cases {c : Char} {front rest front' rest' : List Char} (hfront : c ∉ front)
    (h : front ++ c :: rest = front' ++ c :: rest') :
    (front = front' ∧ rest = rest') ∨
      ∃ mid, front' = front ++ c :: mid ∧ rest = mid ++ c :: rest' := by
  rcases List.append_eq_append_iff.mp h with ⟨mid, hfront', hrest⟩ | ⟨mid, hmid, -⟩
  · cases mid with
    | nil =>
      rw [List.append_nil] at hfront'
      exact .inl ⟨hfront'.symm, (List.cons.inj hrest).2⟩
    | cons d mid =>
      obtain ⟨rfl, hmid⟩ := List.cons.inj hrest
      exact .inr ⟨mid, hfront', hmid⟩
  · cases mid with
    | nil =>
      rw [List.append_nil] at hmid
      subst hmid
      exact .inl ⟨rfl, (List.cons.inj (List.append_cancel_left h)).2⟩
    | cons d mid =>
      rw [hmid, List.append_assoc] at h
      obtain ⟨rfl, -⟩ := List.cons.inj (List.append_cancel_left h)
      exact absurd (hmid ▸ hfront) (by simp)

/-- What ends a text and holds no `c` ends it behind every `c`. -/
theorem suffix_of_suffix_append_cons {c : Char} {s front rest : List Char} (hs : c ∉ s)
    (h : s <:+ front ++ c :: rest) : s <:+ rest := by
  obtain ⟨t, ht⟩ := h
  rcases List.append_eq_append_iff.mp ht with ⟨mid, -, hmid⟩ | ⟨mid, -, hmid⟩
  · exact absurd (hmid ▸ hs) (by simp)
  · cases mid with
    | nil =>
      rw [List.nil_append] at hmid
      exact absurd List.mem_cons_self (hmid ▸ hs)
    | cons d mid => exact ⟨mid, (List.cons.inj hmid).2.symm⟩

/-! ## Parts -/

section Parts

variable {sep : Char}

theorem parts_of_notMem {cs : List Char} (h : sep ∉ cs) : parts sep cs = [cs] := by
  induction cs with
  | nil => rfl
  | cons c cs ih =>
    obtain ⟨hne, hmem⟩ : sep ≠ c ∧ sep ∉ cs := by simpa using h
    simp [parts, Ne.symm hne, ih hmem]

theorem parts_append_cons {cs : List Char} (h : sep ∉ cs) (rest : List Char) :
    parts sep (cs ++ sep :: rest) = cs :: parts sep rest := by
  induction cs with
  | nil => simp [parts]
  | cons c cs ih =>
    obtain ⟨hne, hmem⟩ : sep ≠ c ∧ sep ∉ cs := by simpa using h
    simp [parts, Ne.symm hne, ih hmem]

theorem joined_cons {p : List Char} {ps : List (List Char)} (h : ps ≠ []) :
    joined sep (p :: ps) = p ++ sep :: joined sep ps := by
  cases ps with
  | nil => exact absurd rfl h
  | cons q ps => rfl

theorem joined_append {ps qs : List (List Char)} (hps : ps ≠ []) (hqs : qs ≠ []) :
    joined sep (ps ++ qs) = joined sep ps ++ sep :: joined sep qs := by
  induction ps with
  | nil => exact absurd rfl hps
  | cons p ps ih =>
    cases ps with
    | nil => exact joined_cons hqs
    | cons q ps =>
      have hmore : joined sep (p :: q :: ps) = p ++ sep :: joined sep (q :: ps) := rfl
      rw [List.cons_append, joined_cons (by simp), ih (by simp), hmore, List.append_assoc,
        List.cons_append]

theorem mem_joined {ps : List (List Char)} {c : Char} (h : c ∈ joined sep ps) :
    c = sep ∨ ∃ p ∈ ps, c ∈ p := by
  induction ps with
  | nil => exact absurd h List.not_mem_nil
  | cons p ps ih =>
    cases ps with
    | nil => exact .inr ⟨p, List.mem_cons_self, h⟩
    | cons q ps =>
      rw [joined_cons (by simp)] at h
      rcases List.mem_append.mp h with h | h
      · exact .inr ⟨p, List.mem_cons_self, h⟩
      · rcases List.mem_cons.mp h with rfl | h
        · exact .inl rfl
        · rcases ih h with hsep | ⟨p', hp', hc⟩
          · exact .inl hsep
          · exact .inr ⟨p', List.mem_cons_of_mem _ hp', hc⟩

/-- Induction over the parts of a text: one part alone, or a part in front of a further text. -/
theorem parts_induction (sep : Char) {motive : List Char → Prop}
    (last : ∀ part, sep ∉ part → motive part)
    (more : ∀ part rest, sep ∉ part → motive rest → motive (part ++ sep :: rest))
    (cs : List Char) : motive cs := by
  by_cases h : sep ∈ cs
  · obtain ⟨part, rest, hcs, hpart⟩ := List.eq_append_cons_of_mem h
    have hshorter : rest.length < cs.length := by
      rw [hcs, List.length_append, List.length_cons]
      omega
    rw [hcs]
    exact more part rest hpart (parts_induction sep last more rest)
  · exact last cs h
termination_by cs.length

theorem mem_parts_of_mem (sep : Char) {cs : List Char} {c : Char} (h : c ∈ cs) :
    c = sep ∨ ∃ part ∈ parts sep cs, c ∈ part := by
  induction cs using parts_induction sep with
  | last part hpart => exact .inr ⟨part, by simp [parts_of_notMem hpart], h⟩
  | more part rest hpart ih =>
    rw [parts_append_cons hpart]
    rcases List.mem_append.mp h with h | h
    · exact .inr ⟨part, List.mem_cons_self, h⟩
    · rcases List.mem_cons.mp h with rfl | h
      · exact .inl rfl
      · rcases ih h with hsep | ⟨p, hp, hc⟩
        · exact .inl hsep
        · exact .inr ⟨p, List.mem_cons_of_mem _ hp, hc⟩

theorem mem_of_mem_part (sep : Char) {cs part : List Char} {c : Char} (hpart : part ∈ parts sep cs)
    (hc : c ∈ part) : c ∈ cs := by
  induction cs using parts_induction sep with
  | last first hfirst =>
    rw [parts_of_notMem hfirst, List.mem_singleton] at hpart
    exact hpart ▸ hc
  | more first rest hfirst ih =>
    rw [parts_append_cons hfirst] at hpart
    rcases List.mem_cons.mp hpart with rfl | hpart
    · exact List.mem_append_left _ hc
    · exact List.mem_append_right _ (List.mem_cons_of_mem _ (ih hpart))

theorem notMem_of_mem_parts (sep : Char) {cs part : List Char} (h : part ∈ parts sep cs) :
    sep ∉ part := by
  induction cs using parts_induction sep with
  | last first hfirst =>
    rw [parts_of_notMem hfirst, List.mem_singleton] at h
    exact h ▸ hfirst
  | more first rest hfirst ih =>
    rw [parts_append_cons hfirst] at h
    rcases List.mem_cons.mp h with rfl | h
    · exact hfirst
    · exact ih h

theorem parts_append (sep : Char) (cs rest : List Char) :
    parts sep (cs ++ sep :: rest) = parts sep cs ++ parts sep rest := by
  induction cs using parts_induction sep with
  | last part hpart => rw [parts_append_cons hpart, parts_of_notMem hpart, List.singleton_append]
  | more part more hpart ih =>
    rw [List.append_assoc, List.cons_append, parts_append_cons hpart, ih, parts_append_cons hpart,
      List.cons_append]

theorem parts_joined {ps : List (List Char)} (hne : ps ≠ []) (h : ∀ p ∈ ps, sep ∉ p) :
    parts sep (joined sep ps) = ps := by
  induction ps with
  | nil => exact absurd rfl hne
  | cons p ps ih =>
    obtain ⟨hp, hps⟩ := List.forall_mem_cons.mp h
    cases ps with
    | nil => exact parts_of_notMem hp
    | cons q ps => rw [joined_cons (by simp), parts_append_cons hp, ih (by simp) hps]

end Parts

end CastGuard.Text
