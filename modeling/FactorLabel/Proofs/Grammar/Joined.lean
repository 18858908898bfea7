import FactorLabel.Proofs.Grammar.Places

/-!
# The words of a text that goes on

A word ends at the next separator, so what comes behind a separator has no influence on the words in
front of it. If a text goes on behind a separator, its words stay where they are, and the words that
come in are those of the new text, moved to the place where it begins.
-/

namespace FactorLabel

open Text

/-- The same text, `n` bytes further on. -/
def Lexeme.shift (x : Lexeme) (n : Nat) : Lexeme := ⟨x.text, x.span.shift n⟩

theorem Lexeme.shift_of (w : List Char) (n k : Nat) :
    Lexeme.shift ⟨w, .of n w⟩ k = ⟨w, .of (n + k) w⟩ := by
  simp only [shift, Span.of, Span.shift, Nat.add_right_comm]

namespace Grammar

variable {s u gap : List Char} {n : Nat} {ws vs : List Lexeme}

namespace Walk

/-- A walk does not depend on where the text begins. -/
theorem shift (h : Walk n s ws) (k : Nat) : Walk (n + k) s (ws.map (·.shift k)) := by
  induction h with
  | done gapBlank => exact .done gapBlank
  | @word n gap w rest words gapBlank nonempty solid ended walk ih =>
      rw [List.map_cons, Lexeme.shift_of, Nat.add_right_comm]
      refine .word gapBlank nonempty solid ended ?_
      rwa [Nat.add_right_comm n k, Nat.add_right_comm _ k]

/-- Separators in front are skipped. -/
theorem skip (hgap : ∀ c ∈ gap, isBlank c = true) (h : Walk (n + byteLength gap) s ws) :
    Walk n (gap ++ s) ws := by
  cases h with
  | done gapBlank => exact .done (List.forall_mem_append.mpr ⟨hgap, gapBlank⟩)
  | @word _ gap' w rest words gapBlank nonempty solid ended walk =>
      have hplace : n + byteLength gap + byteLength gap' = n + byteLength (gap ++ gap') := by
        rw [byteLength_append, Nat.add_assoc]
      rw [hplace] at walk ⊢
      simp only [← List.append_assoc]
      exact .word (List.forall_mem_append.mpr ⟨hgap, gapBlank⟩) nonempty solid ended walk

/-- **A text that goes on behind a separator.** -/
theorem append (h : Walk n s ws) (hne : gap ≠ []) (hgap : ∀ c ∈ gap, isBlank c = true)
    (h' : Walk (n + byteLength (s ++ gap)) u vs) : Walk n (s ++ gap ++ u) (ws ++ vs) := by
  induction h with
  | @done n front frontBlank =>
      exact h'.skip (List.forall_mem_append.mpr ⟨frontBlank, hgap⟩)
  | @word n front w rest words gapBlank nonempty solid ended walk ih =>
      have hplace : n + byteLength (front ++ w ++ rest ++ gap)
          = n + byteLength front + byteLength w + byteLength (rest ++ gap) := by
        simp only [byteLength_append, Nat.add_assoc]
      rw [hplace] at h'
      -- the word is ended by what ended it before, or by the separator
      have hended : Stops (fun c => !isBlank c) (rest ++ gap ++ u) := by
        obtain ⟨d, gap, rfl⟩ := List.exists_cons_of_ne_nil hne
        cases rest with
        | nil => exact stops_cons (by simp [hgap d List.mem_cons_self])
        | cons c rest => exact stops_cons (ended c rfl)
      have hword := Walk.word gapBlank nonempty solid hended (ih h')
      simp only [← List.append_assoc, List.cons_append] at hword ⊢
      exact hword

/-- There is one walk over a text. -/
theorem unique (h : Walk n s ws) (h' : Walk n s vs) : ws = vs := by
  have hstarts : ∀ {ws : List Lexeme}, Walk n s ws →
      ws.Pairwise fun x y => x.span.start < y.span.start := by
    intro ws h
    refine h.ordered.imp_of_mem fun {x y} hx _ hlt => ?_
    obtain ⟨before, after, -, hspan⟩ := (h.mem_iff x).mp hx
    have hle : x.span.start ≤ x.span.stop := by
      rw [hspan]
      exact Nat.le_add_right _ _
    exact Nat.lt_of_le_of_lt hle hlt
  have hirrefl : Std.Irrefl fun x y : Lexeme => x.span.start < y.span.start :=
    ⟨fun x => Nat.lt_irrefl x.span.start⟩
  have hantisymm : Std.Antisymm fun x y : Lexeme => x.span.start < y.span.start :=
    ⟨fun x y hxy hyx => absurd hyx (Nat.lt_asymm hxy)⟩
  -- both pass the same words, one behind the other
  exact (hstarts h).eq_of_mem_iff (hstarts h') fun x => (h.mem_iff x).trans (h'.mem_iff x).symm

end Walk

end Grammar

namespace Cursor

variable {s u gap : List Char} {n : Nat} {ws : List Lexeme}

theorem readAll_eq_of_walk (h : Grammar.Walk n s ws) :
    ((⟨s, n⟩ : Cursor).readAll .run).1 = ws := (walk_readAll ⟨s, n⟩).1.unique h

/-- **The words that come in.** Behind a separator a cursor finds the words of the rest as it finds
them at the front of a text, only further on. -/
theorem readAll_append (hne : gap ≠ []) (hgap : ∀ c ∈ gap, isBlank c = true) :
    ((⟨s ++ gap ++ u, n⟩ : Cursor).readAll .run).1 = ((⟨s, n⟩ : Cursor).readAll .run).1
      ++ ((start u).readAll .run).1.map (·.shift (n + byteLength (s ++ gap))) := by
  refine readAll_eq_of_walk ((walk_readAll ⟨s, n⟩).1.append hne hgap ?_)
  have hlater := (walk_readAll (start u)).1.shift (n + byteLength (s ++ gap))
  rwa [start, Nat.zero_add] at hlater

end Cursor

end FactorLabel
