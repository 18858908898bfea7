import FactorLabel.Proofs.Token.Moves
import FactorLabel.Token.Script

/-!
# Where a cursor stands

Every use of a cursor is a move, or a few of them, or it fails and leads nowhere. So whatever a
script does, there is a way from the start to the place where the cursor stands: what was given
back, piece by piece, and the separators that were skipped.
-/

namespace FactorLabel.Cursor

open Text

variable {c next last : Cursor} {x : Lexeme} {xs ys : List Lexeme} {p : Pattern}
variable {u : Use} {a : Answer}

/-! ## What a use does -/

/-- Everything that a use of a cursor can do. -/
inductive Step (c : Cursor) : Use → Answer → Cursor → Prop where
  | advance {n : Nat} {x : Lexeme} {next : Cursor} (moves : Moves c x next)
      (size : byteLength x.text = min n (byteLength c.remaining)) :
      Step c (.advance n) (.lexeme x) next
  /-- There is no cut in the text so many bytes on. -/
  | refused {n : Nat} (inside : ∀ before after, c.remaining = before ++ after →
      byteLength before ≠ min n (byteLength c.remaining)) : Step c (.advance n) .refused c
  | read {p : Pattern} {piece : Piece} {x : Lexeme} {next : Cursor}
      (taken : p.read? c.remaining = some piece) (text : x.text = piece.text)
      (moves : Moves c x next) : Step c (.read p) (.lexeme x) next
  | notRead {p : Pattern} (fails : p.read? c.remaining = none) : Step c (.read p) .missing c
  | readPiece {p : Pattern} {piece : Piece} {x : Lexeme} {next : Cursor}
      (taken : p.read? c.remaining = some piece) (text : x.text = piece.text)
      (moves : Moves c x next) : Step c (.readPiece p) (.piece piece) next
  | notReadPiece {p : Pattern} (fails : p.read? c.remaining = none) :
      Step c (.readPiece p) .missing c
  | skipped {next : Cursor} (skips : Skips c next) : Step c .skipBlanks .skipped next
  | readAll {p : Pattern} {xs : List Lexeme} {next : Cursor} (rounds : Rounds p c xs next) :
      Step c (.readAll p) (.lexemes xs) next

theorem step_use (c : Cursor) (u : Use) : Step c u (c.use u).1 (c.use u).2 := by
  cases u with
  | advance n =>
      cases h : c.advance? n with
      | none =>
          simp only [use, h]
          exact .refused (advance?_eq_none_iff.mp h)
      | some reached =>
          obtain ⟨hmoves, hsize⟩ := advance?_eq_some_iff.mp h
          simp only [use, h]
          exact .advance hmoves hsize
  | read p =>
      cases h : p.read? c.remaining with
      | none =>
          simp only [use, read?_eq_none_iff.mpr h]
          exact .notRead h
      | some piece =>
          obtain ⟨x, next, hmoves, htext, hread, -⟩ := exists_moves_of_read? h
          simp only [use, hread]
          exact .read h htext hmoves
  | readPiece p =>
      cases h : p.read? c.remaining with
      | none =>
          have hread : c.readPiece? p = none := Option.map_eq_none_iff.mpr h
          simp only [use, hread]
          exact .notReadPiece h
      | some piece =>
          obtain ⟨x, next, hmoves, htext, -, hread⟩ := exists_moves_of_read? h
          simp only [use, hread]
          exact .readPiece h htext hmoves
  | skipBlanks => exact .skipped c.skips_skipBlanks
  | readAll p => exact .readAll (c.rounds_readAll p)

/-! ## What a script passes -/

/-- The lexemes that a use at the given place gives back. A piece stands where it was read. -/
def Answer.passed (place : Nat) : Answer → List Lexeme
  | .lexeme x => [x]
  | .piece x => [⟨x.text, .of place x.text⟩]
  | .lexemes xs => xs
  | .skipped => []
  | .missing => []
  | .refused => []

/-- The lexemes that a script gives back, from its first use on. -/
def trail (c : Cursor) : List Use → List Lexeme
  | [] => []
  | u :: script => (c.use u).1.passed c.position ++ (c.use u).2.trail script

/-- The way from one place to another, piece by piece: lexemes, and separators that are skipped. -/
inductive Passes : Cursor → List Lexeme → Cursor → Prop where
  | stay (c : Cursor) : Passes c [] c
  | skip {c next last : Cursor} {xs : List Lexeme} (skips : Skips c next)
      (later : Passes next xs last) : Passes c xs last
  | take {c next last : Cursor} {x : Lexeme} {xs : List Lexeme} (moves : Moves c x next)
      (later : Passes next xs last) : Passes c (x :: xs) last

namespace Passes

theorem trans (h : Passes c xs next) (h' : Passes next ys last) : Passes c (xs ++ ys) last := by
  induction h with
  | stay => exact h'
  | skip skips _ ih => exact .skip skips (ih h')
  | take moves _ ih => exact .take moves (ih h')

theorem exists_passed (h : Passes c xs last) : ∃ passed, c.remaining = passed ++ last.remaining
    ∧ last.position = c.position + byteLength passed := by
  induction h with
  | stay c => exact ⟨[], rfl, rfl⟩
  | skip skips _ ih =>
      obtain ⟨gap, htext, -, hposition⟩ := skips.passed
      obtain ⟨passed, hrest, hlast⟩ := ih
      refine ⟨gap ++ passed, by rw [htext, hrest, List.append_assoc], ?_⟩
      rw [hlast, hposition, byteLength_append, Nat.add_assoc]
  | @take c next last x xs moves _ ih =>
      obtain ⟨passed, hrest, hlast⟩ := ih
      refine ⟨x.text ++ passed, by rw [moves.text, hrest, List.append_assoc], ?_⟩
      rw [hlast, moves.position, byteLength_append, Nat.add_assoc]

theorem position_le (h : Passes c xs last) : c.position ≤ last.position := by
  obtain ⟨passed, -, hposition⟩ := h.exists_passed
  omega

/-- Every lexeme stands on the way, in the bytes of its span. -/
theorem placed (h : Passes c xs last) : ∀ x ∈ xs, ∃ before behind,
    c.remaining = before ++ x.text ++ behind
    ∧ x.span = ⟨c.position + byteLength before, c.position + byteLength (before ++ x.text)⟩
    ∧ x.span.stop ≤ last.position := by
  induction h with
  | stay c => exact fun x hx => absurd hx List.not_mem_nil
  | skip skips _ ih =>
      intro x hx
      obtain ⟨gap, htext, -, hposition⟩ := skips.passed
      obtain ⟨before, behind, hrest, hspan, hstop⟩ := ih x hx
      refine ⟨gap ++ before, behind, by rw [htext, hrest]; simp only [List.append_assoc], ?_, hstop⟩
      rw [hspan, hposition]
      simp only [byteLength_append, Nat.add_assoc]
  | @take c next last y ys moves later ih =>
      intro x hx
      rcases List.mem_cons.mp hx with rfl | hx
      · refine ⟨[], next.remaining, moves.text, ?_, ?_⟩
        · rw [moves.span, moves.position]
          rfl
        · rw [moves.span]
          exact later.position_le
      · obtain ⟨before, behind, hrest, hspan, hstop⟩ := ih x hx
        refine ⟨y.text ++ before, behind, by rw [moves.text, hrest]; simp only [List.append_assoc],
          ?_, hstop⟩
        rw [hspan, moves.position]
        simp only [byteLength_append, Nat.add_assoc]

/-- The lexemes stand one behind the other. -/
theorem ordered (h : Passes c xs last) : xs.Pairwise fun x y => x.span.stop ≤ y.span.start := by
  induction h with
  | stay => exact .nil
  | skip _ _ ih => exact ih
  | @take c next last x xs moves later ih =>
      refine .cons (fun y hy => ?_) ih
      obtain ⟨before, behind, -, hspan, -⟩ := later.placed y hy
      rw [moves.span, hspan]
      exact Nat.le_add_right next.position (byteLength before)

end Passes

theorem Rounds.passes (h : Rounds p c xs last) : Passes c xs last := by
  induction h with
  | missing skips => exact .skip skips (.stay _)
  | empty skips => exact .skip skips (.stay _)
  | round skips _ _ _ moves _ ih => exact .skip skips (.take moves ih)

/-- **One use.** The way of a step goes over what it gives back. -/
theorem Step.passes (h : Step c u a next) : Passes c (a.passed c.position) next := by
  cases h with
  | advance moves => exact .take moves (.stay next)
  | refused => exact .stay c
  | read _ _ moves => exact .take moves (.stay next)
  | notRead => exact .stay c
  | @readPiece p piece x next taken text moves =>
      have hx := moves.eq_of
      rw [text] at hx
      subst hx
      exact .take moves (.stay next)
  | notReadPiece => exact .stay c
  | skipped skips => exact .skip skips (.stay next)
  | readAll rounds => exact rounds.passes

/-- **A whole script.** -/
theorem passes_trail (c : Cursor) (script : List Use) :
    Passes c (c.trail script) (c.after script) := by
  induction script generalizing c with
  | nil => exact .stay c
  | cons u script ih => exact (c.step_use u).passes.trans (ih (c.use u).2)

/-- A cursor has passed the lexemes `xs` of the text `t`. -/
structure KeepsPlace (t : String) (xs : List Lexeme) (c : Cursor) : Prop where
  /-- The place is between two characters, and what is left begins there. -/
  boundary : ∃ front : String, t = front ++ String.ofList c.remaining
    ∧ c.position = front.utf8ByteSize
  /-- From the start on there are only the lexemes and separators that were skipped. -/
  tiles : Passes (start t.toList) xs c
  /-- A lexeme is the text in the bytes of its span. -/
  placed : ∀ x ∈ xs, ∃ before behind : String, t = before ++ String.ofList x.text ++ behind
    ∧ x.span = ⟨before.utf8ByteSize, (before ++ String.ofList x.text).utf8ByteSize⟩
    ∧ x.span.stop ≤ c.position
  ordered : xs.Pairwise fun x y => x.span.stop ≤ y.span.start
  /-- The next use does what it can do, and it does not lead back. -/
  next : ∀ u, Step c u (c.use u).1 (c.use u).2 ∧ c.position ≤ (c.use u).2.position
  /-- If it fails, it leads nowhere. -/
  failed : ∀ u, (c.use u).1 = .missing ∨ (c.use u).1 = .refused → (c.use u).2 = c
  /-- What a pattern takes is passed by a move over as many bytes, which is not refused. -/
  reads : ∀ (p : Pattern) piece, p.read? c.remaining = some piece → ∃ x next,
    c.advance? (byteLength piece.text) = some (x, next) ∧ x.text = piece.text
    ∧ c.read? p = some (x, next) ∧ c.readPiece? p = some (piece, next)

/-- A use that fails leaves the cursor where it is. -/
theorem Step.eq_of_failed (h : Step c u a next) (ha : a = .missing ∨ a = .refused) : next = c := by
  cases h with
  | refused => rfl
  | notRead => rfl
  | notReadPiece => rfl
  | advance => simp at ha
  | read => simp at ha
  | readPiece => simp at ha
  | skipped => simp at ha
  | readAll => simp at ha

/--
**A cursor keeps its place.**

After any script the place is between two characters, and what is left of the text begins there.
What was given back stands in the text in the bytes of its span, one lexeme behind the other, and
nothing but separators was skipped in between. No use leads back, a use that fails leads nowhere,
and reading over and over comes to an end. Only a move over a given number of bytes can be refused,
and it is if there is no cut in the text so many bytes on.
-/
theorem keepsPlace_after (t : String) (script : List Use) :
    KeepsPlace t ((start t.toList).trail script) ((start t.toList).after script) := by
  have hpasses := passes_trail (start t.toList) script
  refine {
    boundary := ?_
    tiles := hpasses
    placed := fun x hx => ?_
    ordered := hpasses.ordered
    next := fun u => ⟨step_use _ u, (step_use _ u).passes.position_le⟩
    failed := fun u hu => (step_use _ u).eq_of_failed hu
    reads := fun p piece h => ?_ }
  · obtain ⟨passed, htext, hposition⟩ := hpasses.exists_passed
    refine ⟨String.ofList passed, ?_, ?_⟩
    · rw [← String.ofList_append, ← htext]
      exact String.ofList_toList.symm
    · rw [hposition, ← byteLength_eq]
      exact Nat.zero_add _
  · obtain ⟨before, behind, htext, hspan, hstop⟩ := hpasses.placed x hx
    refine ⟨String.ofList before, String.ofList behind, ?_, ?_, hstop⟩
    · rw [← String.ofList_append, ← String.ofList_append, ← htext]
      exact String.ofList_toList.symm
    · rw [hspan, ← String.ofList_append, ← byteLength_eq, ← byteLength_eq]
      simp only [start, Nat.zero_add]
  · obtain ⟨x, next, hmoves, htext, hread, hpiece⟩ := exists_moves_of_read? h
    exact ⟨x, next, htext ▸ advance?_of_moves hmoves, htext, hread, hpiece⟩

/-- The first letter has two bytes. A move over one of them is refused, and so the walk over the
words begins at the front. -/
example : (start "é m ".toList).trail [.advance 1, .read .factor, .readAll .run]
      = [⟨"é".toList, ⟨0, 2⟩⟩, ⟨"m".toList, ⟨3, 4⟩⟩]
    ∧ (start "é m ".toList).after [.advance 1, .read .factor, .readAll .run] = ⟨[], 5⟩ := by
  decide +kernel

end FactorLabel.Cursor
