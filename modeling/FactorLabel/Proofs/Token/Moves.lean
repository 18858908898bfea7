import FactorLabel.Proofs.Grammar.Factor
import FactorLabel.Proofs.Grammar.Label
import FactorLabel.Token.Cursor

/-!
# The moves of a cursor

A cursor keeps its place twice, as the text that is left and as a number of bytes. Every move drops
a piece from the one and adds its length to the other, so both always say the same, and the place is
between two characters. A pattern takes a piece from the front of what is left, and then the cursor
moves over the bytes of that piece: such a move is never refused, since the piece ends between two
characters. Where nothing is taken, nothing moves, so reading over and over comes to an end.
-/

namespace FactorLabel

open Text

/-! ## Cutting a text -/

theorem splitBytes?_zero (s : List Char) : splitBytes? 0 s = some ([], s) := by
  cases s <;> rfl

theorem splitBytes?_cons {n : Nat} (hn : 0 < n) (c : Char) (s : List Char) :
    splitBytes? n (c :: s) = if c.utf8Size ≤ n then
      (splitBytes? (n - c.utf8Size) s).map fun (a, b) => (c :: a, b) else none := by
  cases n with
  | zero => exact absurd hn (Nat.lt_irrefl 0)
  | succ n => rfl

/-- A text is cut after so many bytes, or at its end. -/
theorem splitBytes?_eq_some_iff {n : Nat} {s a b : List Char} :
    splitBytes? n s = some (a, b) ↔ s = a ++ b ∧ byteLength a = min n (byteLength s) := by
  induction s generalizing n a with
  | nil =>
      have hnil : splitBytes? n [] = some ([], []) := by cases n <;> rfl
      rw [hnil]
      constructor
      · intro h
        cases h
        exact ⟨rfl, by simp⟩
      · rintro ⟨h, -⟩
        obtain ⟨rfl, rfl⟩ := List.append_eq_nil_iff.mp h.symm
        rfl
  | cons c s ih =>
      have hc := c.utf8Size_pos
      rcases Nat.eq_zero_or_pos n with rfl | hn
      · rw [splitBytes?_zero, Nat.zero_min]
        constructor
        · intro h
          cases h
          exact ⟨rfl, rfl⟩
        · rintro ⟨h, ha⟩
          have hnil : a = [] := by
            by_contra hne
            exact Nat.ne_of_gt (byteLength_pos hne) ha
          rw [hnil] at h ⊢
          rw [h, List.nil_append]
      · rw [splitBytes?_cons hn, byteLength_cons]
        constructor
        · intro h
          split at h
          · rename_i hle
            obtain ⟨⟨a', b'⟩, hsplit, hab⟩ := Option.map_eq_some_iff.mp h
            cases hab
            obtain ⟨rfl, ha⟩ := ih.mp hsplit
            refine ⟨rfl, ?_⟩
            rw [byteLength_cons]
            omega
          · exact nomatch h
        · rintro ⟨h, ha⟩
          cases a with
          | nil =>
              rw [byteLength_nil] at ha
              omega
          | cons d a =>
              obtain ⟨rfl, rfl⟩ := List.cons.inj h
              rw [byteLength_cons] at ha
              have hle : c.utf8Size ≤ n := by omega
              rw [if_pos hle, ih.mpr ⟨rfl, by omega⟩]
              rfl

/-! ## What a pattern takes -/

/-- A run is not empty, and goes on up to the next separator. -/
theorem Pattern.read?_run_eq_some_iff {s : List Char} {piece : Piece} :
    Pattern.run.read? s = some piece ↔
      piece = ⟨s.takeWhile (!isBlank ·), []⟩ ∧ piece.text ≠ [] := by
  simp only [read?]
  split
  · rename_i hempty
    refine ⟨fun h => absurd h (by simp), ?_⟩
    rintro ⟨rfl, hne⟩
    exact absurd (List.isEmpty_iff.mp hempty) hne
  · rename_i hne
    constructor
    · rintro ⟨⟩
      exact ⟨rfl, by simpa using hne⟩
    · rintro ⟨rfl, -⟩
      rfl

/-- A pattern takes a piece from the front. -/
theorem Pattern.exists_rest {p : Pattern} {s : List Char} {piece : Piece}
    (h : p.read? s = some piece) : ∃ rest, s = piece.text ++ rest := by
  cases p with
  | factorSegment =>
      obtain ⟨⟨t, gap, rest⟩, hsegment, rfl⟩ := Option.map_eq_some_iff.mp h
      exact ⟨rest, (FactorToken.segment?_eq_some_iff.mp hsegment).2.1⟩
  | factor =>
      obtain ⟨t, hwhole, rfl⟩ := Option.map_eq_some_iff.mp h
      obtain ⟨-, rfl⟩ := FactorToken.whole?_eq_some_iff.mp hwhole
      exact ⟨[], (List.append_nil t.text).symm⟩
  | label =>
      obtain ⟨t, hwhole, rfl⟩ := Option.map_eq_some_iff.mp h
      obtain ⟨-, -, rfl⟩ := LabelToken.whole?_eq_some_iff.mp hwhole
      exact ⟨[], (List.append_nil t.text).symm⟩
  | run =>
      obtain ⟨rfl, -⟩ := read?_run_eq_some_iff.mp h
      exact ⟨s.dropWhile (!isBlank ·), List.takeWhile_append_dropWhile.symm⟩
  | separator =>
      cases h
      exact ⟨s.dropWhile isBlank, List.takeWhile_append_dropWhile.symm⟩

/-! ## Moves -/

namespace Cursor

variable {c next : Cursor} {x : Lexeme} {p : Pattern} {n : Nat}

/-- From one place to the next the cursor passes `x`, which starts at the one and ends at the
other. -/
structure Moves (c : Cursor) (x : Lexeme) (next : Cursor) : Prop where
  text : c.remaining = x.text ++ next.remaining
  span : x.span = ⟨c.position, next.position⟩
  position : next.position = c.position + byteLength x.text

theorem moves_pass {text rest : List Char} (h : c.remaining = text ++ rest) :
    Moves c (c.pass text rest).1 (c.pass text rest).2 := ⟨h, rfl, rfl⟩

theorem Moves.eq_of (h : Moves c x next) : x = ⟨x.text, .of c.position x.text⟩ := by
  obtain ⟨text, span⟩ := x
  rw [Span.of, ← h.position, ← h.span]

theorem Moves.pass_eq (h : Moves c x next) : c.pass x.text next.remaining = (x, next) := by
  obtain ⟨text, span⟩ := x
  obtain ⟨rest, place⟩ := next
  obtain ⟨-, hspan, hposition⟩ := h
  simp only at hspan hposition
  subst hposition hspan
  rfl

theorem advance?_eq_some_iff : c.advance? n = some (x, next) ↔
    Moves c x next ∧ byteLength x.text = min n (byteLength c.remaining) := by
  rw [advance?, Option.map_eq_some_iff]
  constructor
  · rintro ⟨⟨text, rest⟩, hsplit, hpass⟩
    obtain ⟨htext, hsize⟩ := splitBytes?_eq_some_iff.mp hsplit
    cases hpass
    exact ⟨moves_pass htext, hsize⟩
  · rintro ⟨hmoves, hsize⟩
    exact ⟨(x.text, next.remaining), splitBytes?_eq_some_iff.mpr ⟨hmoves.text, hsize⟩,
      hmoves.pass_eq⟩

/-- A move is refused where the text cannot be cut. -/
theorem advance?_eq_none_iff : c.advance? n = none ↔
    ∀ before after, c.remaining = before ++ after →
      byteLength before ≠ min n (byteLength c.remaining) := by
  constructor
  · intro h before after htext hsize
    have hmoves := moves_pass htext
    exact nomatch h.symm.trans (advance?_eq_some_iff.mpr ⟨hmoves, hsize⟩)
  · intro h
    refine Option.eq_none_iff_forall_ne_some.mpr fun (x, next) hsome => ?_
    obtain ⟨hmoves, hsize⟩ := advance?_eq_some_iff.mp hsome
    exact h x.text next.remaining hmoves.text hsize

theorem advance?_of_moves (h : Moves c x next) :
    c.advance? (byteLength x.text) = some (x, next) := by
  refine advance?_eq_some_iff.mpr ⟨h, ?_⟩
  rw [h.text, byteLength_append]
  omega

/-- **A read is a move.** What a pattern takes ends between two characters, so the move over its
bytes is not refused. -/
theorem exists_moves_of_read? {piece : Piece} (h : p.read? c.remaining = some piece) :
    ∃ x next, Moves c x next ∧ x.text = piece.text ∧ c.read? p = some (x, next)
      ∧ c.readPiece? p = some (piece, next) := by
  obtain ⟨rest, htext⟩ := Pattern.exists_rest h
  have hdrop : c.remaining.drop piece.text.length = rest := by rw [htext, List.drop_left]
  refine ⟨_, _, moves_pass htext, rfl, ?_, ?_⟩
  · rw [read?, h, Option.map_some, hdrop]
  · rw [readPiece?, h, Option.map_some, hdrop]

/-- From one place to the next there are only separators, and none is left behind. -/
structure Skips (c next : Cursor) : Prop where
  passed : ∃ gap, c.remaining = gap ++ next.remaining ∧ (∀ d ∈ gap, isBlank d = true)
    ∧ next.position = c.position + byteLength gap
  stops : Stops isBlank next.remaining

theorem skips_skipBlanks (c : Cursor) : Skips c c.skipBlanks where
  passed := ⟨c.remaining.takeWhile isBlank, List.takeWhile_append_dropWhile.symm,
    fun _ hd => List.mem_takeWhile_imp hd, rfl⟩
  stops := stops_dropWhile c.remaining

/-! ## Reading over and over -/

/-- Rounds of skipping and reading, until a read fails or takes nothing. -/
inductive Rounds (p : Pattern) : Cursor → List Lexeme → Cursor → Prop where
  | missing {c mid : Cursor} (skips : Skips c mid) (fails : p.read? mid.remaining = none) :
      Rounds p c [] mid
  | empty {c mid : Cursor} {piece : Piece} (skips : Skips c mid)
      (taken : p.read? mid.remaining = some piece) (nothing : piece.text = []) : Rounds p c [] mid
  | round {c mid next last : Cursor} {piece : Piece} {x : Lexeme} {xs : List Lexeme}
      (skips : Skips c mid) (taken : p.read? mid.remaining = some piece)
      (something : piece.text ≠ []) (text : x.text = piece.text) (moves : Moves mid x next)
      (later : Rounds p next xs last) : Rounds p c (x :: xs) last

theorem read?_eq_none_iff : c.read? p = none ↔ p.read? c.remaining = none := Option.map_eq_none_iff

/-- What was read was taken by the pattern. -/
theorem exists_piece_of_read? (h : c.read? p = some (x, next)) :
    ∃ piece, p.read? c.remaining = some piece ∧ x.text = piece.text ∧ Moves c x next := by
  obtain ⟨piece, hpiece, -⟩ := Option.map_eq_some_iff.mp h
  obtain ⟨_, _, hmoves, htext, hread, -⟩ := exists_moves_of_read? hpiece
  cases h.symm.trans hread
  exact ⟨piece, hpiece, htext, hmoves⟩

theorem Moves.length_eq (h : Moves c x next) :
    c.remaining.length = x.text.length + next.remaining.length := by
  rw [h.text, List.length_append]

/-- **Reading over and over comes to an end.** -/
theorem rounds_readAll (p : Pattern) (c : Cursor) : Rounds p c (c.readAll p).1 (c.readAll p).2 := by
  fun_induction readAll p c with
  | case1 c h => exact .missing c.skips_skipBlanks (read?_eq_none_iff.mp h)
  | case2 c x next h hlt later ih =>
      obtain ⟨piece, hpiece, htext, hmoves⟩ := exists_piece_of_read? h
      refine .round c.skips_skipBlanks hpiece (fun hnil => ?_) htext hmoves ih
      have hlength := hmoves.length_eq
      rw [htext, hnil, List.length_nil] at hlength
      omega
  | case3 c x next h hlt =>
      obtain ⟨piece, hpiece, htext, hmoves⟩ := exists_piece_of_read? h
      have hlength := hmoves.length_eq
      refine .empty c.skips_skipBlanks hpiece (List.length_eq_zero_iff.mp ?_)
      rw [← htext]
      omega

end Cursor

end FactorLabel
