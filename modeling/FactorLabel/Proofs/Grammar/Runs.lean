import FactorLabel.Proofs.Token.Moves

/-!
# The words of a label text

The cursor walks over a text word by word, and the words of the text are what is left of it when
it is cut at every separator. Walking finds all of them, each once and in their order: a step of
the walk takes exactly the first word, so the walk is followed by induction on what is left. A
walk keeps the places of the words too, and reading runs over and over is a walk that does not stop
before the end of the text.
-/

namespace FactorLabel

open Text

namespace Grammar

/-- The longest pieces of a text without a separator. -/
def runs (s : List Char) : List (List Char) :=
  (s.splitOnP separator).filter fun w => !w.isEmpty

theorem runs_eq (s : List Char) : runs s = (s.splitOnP isBlank).filter fun w => !w.isEmpty := by
  rw [runs, separator_eq]

theorem runs_nil : runs [] = [] := by simp [runs]

/-- A separator cuts a text in two. -/
theorem runs_append_blank {c : Char} (hc : isBlank c = true) (s t : List Char) :
    runs (s ++ c :: t) = runs s ++ runs t := by
  rw [runs_eq, List.splitOnP_append_cons s t hc, List.filter_append, ← runs_eq, ← runs_eq]

theorem runs_blank_cons {c : Char} (hc : isBlank c = true) (s : List Char) :
    runs (c :: s) = runs s := by
  have hcut := runs_append_blank hc [] s
  rw [runs_nil] at hcut
  exact hcut

/-- A text without separators is one word. -/
theorem runs_word {w : List Char} (hne : w ≠ []) (hw : ∀ c ∈ w, isBlank c = false) :
    runs w = [w] := by
  have hempty : w.isEmpty = false := by simpa using hne
  rw [runs_eq, List.splitOnP_eq_singleton hw]
  simp [hempty]

/-- A word in front of a separator or the end is the first one. -/
theorem runs_append {w rest : List Char} (hne : w ≠ []) (hw : ∀ c ∈ w, isBlank c = false)
    (hrest : Stops (fun c => !isBlank c) rest) : runs (w ++ rest) = w :: runs rest := by
  cases rest with
  | nil => rw [List.append_nil, runs_word hne hw, runs_nil]
  | cons c rest =>
      have hc : isBlank c = true := by simpa using hrest c rfl
      rw [runs_append_blank hc, runs_word hne hw, runs_blank_cons hc, List.singleton_append]

/-! ## Walks -/

/-- A walk over a text that starts `n` bytes into the field: separators are skipped and words are
passed, each up to the next separator, until nothing but separators is left. -/
inductive Walk : Nat → List Char → List Lexeme → Prop where
  | done {n : Nat} {gap : List Char} (gapBlank : ∀ c ∈ gap, isBlank c = true) : Walk n gap []
  | word {n : Nat} {gap w rest : List Char} {words : List Lexeme}
      (gapBlank : ∀ c ∈ gap, isBlank c = true) (nonempty : w ≠ [])
      (solid : ∀ c ∈ w, isBlank c = false) (ended : Stops (fun c => !isBlank c) rest)
      (walk : Walk (n + byteLength gap + byteLength w) rest words) :
      Walk n (gap ++ w ++ rest) (⟨w, .of (n + byteLength gap) w⟩ :: words)

theorem runs_gap_append {gap : List Char} (h : ∀ c ∈ gap, isBlank c = true) (s : List Char) :
    runs (gap ++ s) = runs s := by
  induction gap with
  | nil => rfl
  | cons c gap ih =>
      rw [List.cons_append, runs_blank_cons (h c List.mem_cons_self),
        ih fun d hd => h d (List.mem_cons_of_mem c hd)]

/-- A walk passes the words of the text. -/
theorem Walk.texts {n : Nat} {s : List Char} {words : List Lexeme} (h : Walk n s words) :
    words.map Lexeme.text = runs s := by
  induction h with
  | @done n gap gapBlank =>
      have hruns := runs_gap_append gapBlank []
      rw [List.append_nil, runs_nil] at hruns
      rw [hruns, List.map_nil]
  | word gapBlank nonempty solid ended _ ih =>
      rw [List.append_assoc, runs_gap_append gapBlank, runs_append nonempty solid ended,
        List.map_cons, ih]

/-- Where no separator is next and there is no run, there is nothing. -/
theorem eq_nil_of_read?_run {s : List Char} (hstop : Stops isBlank s)
    (hnone : Pattern.run.read? s = none) : s = [] := by
  cases s with
  | nil => rfl
  | cons c s =>
      have hne : (c :: s).takeWhile (!isBlank ·) ≠ [] := by
        rw [List.takeWhile_cons_of_pos (by simp [hstop c rfl])]
        exact List.cons_ne_nil _ _
      cases hnone.symm.trans (Pattern.read?_run_eq_some_iff.mpr ⟨rfl, hne⟩)

end Grammar

namespace Cursor

/-- Skipping and reading runs is a walk over all of the text. -/
theorem Rounds.walk {c last : Cursor} {words : List Lexeme} (h : Rounds .run c words last) :
    Grammar.Walk c.position c.remaining words ∧ last.remaining = [] := by
  induction h with
  | @missing c mid skips fails =>
      obtain ⟨gap, htext, hgap, -⟩ := skips.passed
      have hnil := Grammar.eq_nil_of_read?_run skips.stops fails
      rw [htext, hnil, List.append_nil]
      exact ⟨.done hgap, rfl⟩
  | empty _ taken nothing => exact absurd nothing (Pattern.read?_run_eq_some_iff.mp taken).2
  | @round c mid next last piece x xs skips taken something text moves later ih =>
      obtain ⟨gap, htext, hgap, hposition⟩ := skips.passed
      obtain ⟨hpiece, -⟩ := Pattern.read?_run_eq_some_iff.mp taken
      have hword : x.text = mid.remaining.takeWhile (!isBlank ·) := by rw [text, hpiece]
      have hsolid : ∀ d ∈ x.text, isBlank d = false := by
        intro d hd
        rw [hword] at hd
        simpa using List.mem_takeWhile_imp hd
      -- what a run takes is ended by a separator
      have hended : Stops (fun d => !isBlank d) next.remaining := by
        have hsplit : x.text ++ next.remaining
            = x.text ++ mid.remaining.dropWhile (!isBlank ·) := by
          rw [← moves.text, hword, List.takeWhile_append_dropWhile]
        rw [List.append_cancel_left hsplit]
        exact stops_dropWhile _
      refine ⟨?_, ih.2⟩
      have hlater := ih.1
      rw [moves.position, hposition] at hlater
      rw [htext, moves.text, ← List.append_assoc, moves.eq_of, hposition]
      exact .word hgap (text ▸ something) hsolid hended hlater

/-- **The cursor walks over the whole text.** -/
theorem walk_readAll (c : Cursor) : Grammar.Walk c.position c.remaining (c.readAll .run).1
    ∧ (c.readAll .run).2.remaining = [] := (rounds_readAll .run c).walk

/-- **The walk finds the words.** -/
theorem readAll_run (c : Cursor) :
    (c.readAll .run).1.map Lexeme.text = Grammar.runs c.remaining :=
  c.walk_readAll.1.texts

end Cursor

end FactorLabel
