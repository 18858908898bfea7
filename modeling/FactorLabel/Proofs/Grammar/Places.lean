import FactorLabel.Proofs.Grammar.Runs

/-!
# The places of the words

A word of a text is known by what stands around it: a separator or an end of the text on either
side. A walk passes a word at each such place and at no other, so what is said about the words
of a text, and in which bytes they stand, need not follow the walk.
-/

namespace FactorLabel

open Text

namespace Grammar

/-- The word `w` of the text `s`, between `before` and `after`: a piece without a separator that
cannot be made longer. -/
structure Run (s before w after : List Char) : Prop where
  text : s = before ++ w ++ after
  nonempty : w ≠ []
  word : ∀ c ∈ w, separator c = false
  front : ∀ c ∈ before.getLast?, separator c = true
  back : ∀ c ∈ after.head?, separator c = true

variable {s gap w rest before v after : List Char}

namespace Run

theorem solid (h : Run s before v after) : ∀ c ∈ v, isBlank c = false := by
  rw [← separator_eq]
  exact h.word

theorem ended (h : Run s before v after) : Stops (fun c => !isBlank c) after := by
  intro c hc
  have hc := h.back c hc
  rw [separator_eq] at hc
  simp [hc]

/-- There is no word among separators. -/
theorem not_of_blank (hgap : ∀ c ∈ gap, isBlank c = true) : ¬ Run gap before v after := by
  intro h
  obtain ⟨c, hc⟩ := List.exists_mem_of_ne_nil v h.nonempty
  have hmem : c ∈ gap := by
    rw [h.text]
    exact List.mem_append_left _ (List.mem_append_right _ hc)
  exact Bool.false_ne_true ((h.solid c hc).symm.trans (hgap c hmem))

/-- A text that starts with a separator does not start with a word. -/
theorem before_ne_nil (h : Run s before v after) (hs : Stops (fun c => !isBlank c) s) :
    before ≠ [] := by
  rintro rfl
  cases hv : v with
  | nil => exact h.nonempty hv
  | cons c v' =>
      have hblank := hs c (by rw [h.text, hv]; rfl)
      have hsolid := h.solid c (by rw [hv]; exact List.mem_cons_self)
      simp [hsolid] at hblank

/-- What stands in front of a word may be made longer, if a word at the very start does not go on
to the left. -/
theorem append_left {front : List Char} (h : Run rest before v after)
    (hfront : before = [] → ∀ c ∈ front.getLast?, separator c = true) :
    Run (front ++ rest) (front ++ before) v after where
  text := by rw [h.text]; simp only [List.append_assoc]
  nonempty := h.nonempty
  word := h.word
  front := by
    by_cases hbefore : before = []
    · rw [hbefore, List.append_nil]
      exact hfront hbefore
    · rw [List.getLast?_append_of_ne_nil _ hbefore]
      exact h.front
  back := h.back

theorem drop_left {front : List Char} (h : Run (front ++ rest) (front ++ before) v after) :
    Run rest before v after where
  text := by
    have htext := h.text
    simp only [List.append_assoc] at htext
    rw [List.append_assoc]
    exact List.append_cancel_left htext
  nonempty := h.nonempty
  word := h.word
  front := fun c hc => h.front c (List.mem_getLast?_append_of_mem_getLast? hc)
  back := h.back

/-- A word that starts after another one starts, starts after it ends. -/
theorem eq_or_behind {m : List Char} (h : Run s before w rest) (h' : Run s (before ++ m) v after) :
    (m = [] ∧ w = v ∧ rest = after) ∨ ∃ b, m = w ++ b := by
  have htext : w ++ rest = m ++ (v ++ after) := by
    have hs := h.text.symm.trans h'.text
    simp only [List.append_assoc] at hs
    exact List.append_cancel_left hs
  by_cases hm : m = []
  · subst hm
    have htake := congrArg (List.takeWhile fun c => !isBlank c) htext
    rw [takeWhile_append_of_stops (by simpa using h.solid) h.ended, List.nil_append,
      takeWhile_append_of_stops (by simpa using h'.solid) h'.ended] at htake
    subst htake
    exact .inl ⟨rfl, rfl, List.append_cancel_left htext⟩
  · rcases List.append_eq_append_iff.mp htext with ⟨b, hb, -⟩ | ⟨b, hb, -⟩
    · exact .inr ⟨b, hb⟩
    -- the separator at the end of `m` would be a character of the first word
    · have hlast := h'.front (m.getLast hm) (by
        rw [List.getLast?_append_of_ne_nil _ hm]
        exact List.getLast?_eq_some_getLast hm)
      have hword := h.word (m.getLast hm) (by
        rw [hb]
        exact List.mem_append_left _ (List.getLast_mem hm))
      exact absurd (hword.symm.trans hlast) Bool.false_ne_true

end Run

/-- The words of a text are its first word and the words of what comes after it. -/
theorem run_append_iff (hgap : ∀ c ∈ gap, isBlank c = true) (hne : w ≠ [])
    (hw : ∀ c ∈ w, isBlank c = false) (hrest : Stops (fun c => !isBlank c) rest) :
    Run (gap ++ w ++ rest) before v after ↔
      (before = gap ∧ v = w ∧ after = rest)
        ∨ ∃ b, before = gap ++ w ++ b ∧ Run rest b v after := by
  have hfirst : Run (gap ++ w ++ rest) gap w rest := {
    text := rfl
    nonempty := hne
    word := by rwa [separator_eq]
    front := fun c hc => by
      rw [separator_eq]
      exact hgap c (List.mem_of_getLast? hc)
    back := fun c hc => by
      rw [separator_eq]
      simpa using hrest c hc }
  constructor
  · intro h
    have htext := hfirst.text.symm.trans h.text
    simp only [List.append_assoc] at htext
    rcases List.append_eq_append_iff.mp htext with ⟨m, rfl, -⟩ | ⟨m, rfl, -⟩
    · rcases hfirst.eq_or_behind h with ⟨rfl, rfl, rfl⟩ | ⟨b, rfl⟩
      · exact .inl ⟨List.append_nil _, rfl, rfl⟩
      · rw [← List.append_assoc] at h ⊢
        exact .inr ⟨b, rfl, h.drop_left⟩
    · rcases h.eq_or_behind hfirst with ⟨rfl, rfl, rfl⟩ | ⟨b, rfl⟩
      · exact .inl ⟨(List.append_nil _).symm, rfl, rfl⟩
      -- a word does not stand in the gap
      · obtain ⟨c, hc⟩ := List.exists_mem_of_ne_nil v h.nonempty
        have hblank := hgap c (List.mem_append_right _ (List.mem_append_left _ hc))
        exact absurd ((h.solid c hc).symm.trans hblank) Bool.false_ne_true
  · rintro (⟨rfl, rfl, rfl⟩ | ⟨b, rfl, h⟩)
    · exact hfirst
    · exact h.append_left fun hb => absurd hb (h.before_ne_nil hrest)

/-- **A walk passes the words, each at its place.** -/
theorem Walk.mem_iff {n : Nat} {words : List Lexeme} (h : Walk n s words) (x : Lexeme) :
    x ∈ words ↔
      ∃ before after, Run s before x.text after ∧ x.span = .of (n + byteLength before) x.text := by
  induction h with
  | done gapBlank =>
      refine ⟨fun hx => absurd hx List.not_mem_nil, ?_⟩
      rintro ⟨before, after, hrun, -⟩
      exact absurd hrun (Run.not_of_blank gapBlank)
  | @word n gap w rest words gapBlank nonempty solid ended walk ih =>
      simp only [run_append_iff gapBlank nonempty solid ended]
      rw [List.mem_cons, ih]
      constructor
      · rintro (rfl | ⟨before, after, hrun, hspan⟩)
        · exact ⟨gap, rest, .inl ⟨rfl, rfl, rfl⟩, rfl⟩
        · refine ⟨_, after, .inr ⟨before, rfl, hrun⟩, ?_⟩
          rw [hspan, byteLength_append, byteLength_append]
          simp only [Nat.add_assoc]
      · rintro ⟨before, after, ⟨rfl, hw, rfl⟩ | ⟨b, rfl, hrun⟩, hspan⟩
        · left
          rw [← hw, ← hspan]
        · refine .inr ⟨b, after, hrun, ?_⟩
          rw [hspan, byteLength_append, byteLength_append]
          simp only [Nat.add_assoc]

theorem Run.mem_runs (h : Run s before v after) : v ∈ runs s := by
  have hwalk : Walk 0 s _ := (Cursor.walk_readAll (.start s)).1
  have hmem := (hwalk.mem_iff ⟨v, .of (0 + byteLength before) v⟩).mpr ⟨before, after, h, rfl⟩
  rw [← hwalk.texts]
  exact List.mem_map_of_mem hmem

theorem Walk.lt_start {n : Nat} {words : List Lexeme} (h : Walk n s words)
    (hs : Stops (fun c => !isBlank c) s) {x : Lexeme} (hx : x ∈ words) : n < x.span.start := by
  obtain ⟨before, after, hrun, hspan⟩ := (h.mem_iff x).mp hx
  have hpos := byteLength_pos (hrun.before_ne_nil hs)
  rw [hspan]
  exact Nat.lt_add_of_pos_right hpos

/-- The words stand one behind the other, with a separator in between at least. -/
theorem Walk.ordered {n : Nat} {words : List Lexeme} (h : Walk n s words) :
    words.Pairwise fun x y => x.span.stop < y.span.start := by
  induction h with
  | done => exact .nil
  | word _ _ _ ended walk ih => exact .cons (fun y hy => walk.lt_start ended hy) ih

end Grammar

end FactorLabel
