import FactorLabel.Token.Pattern

/-!
# A cursor over a text

What is still to be read, and how many bytes were read before it. A read that finds nothing
leaves the cursor where it is, and so does a move that would stop inside a character.
-/

namespace FactorLabel

open Text

/-- A piece of text, and where it stands in the whole. -/
structure Lexeme where
  text : List Char
  span : Span
  deriving DecidableEq, Repr

/-- A place in a text. -/
structure Cursor where
  remaining : List Char
  position : Nat
  deriving DecidableEq, Repr

/-- Cuts `s` after `n` bytes, or at its end if it has fewer. There is no cut inside a character. -/
def splitBytes? : Nat → List Char → Option (List Char × List Char)
  | 0, s => some ([], s)
  | _, [] => some ([], [])
  | n, c :: rest =>
      if c.utf8Size ≤ n then (splitBytes? (n - c.utf8Size) rest).map fun (a, b) => (c :: a, b)
      else none

namespace Cursor

/-- The cursor in front of a text. -/
def start (s : List Char) : Cursor := ⟨s, 0⟩

/-- Moves over `text`, with `rest` behind it. -/
def pass (c : Cursor) (text rest : List Char) : Lexeme × Cursor :=
  (⟨text, .of c.position text⟩, ⟨rest, c.position + byteLength text⟩)

/-- Moves over `n` bytes, but not past the end. -/
def advance? (n : Nat) (c : Cursor) : Option (Lexeme × Cursor) :=
  (splitBytes? n c.remaining).map fun (text, rest) => c.pass text rest

/-- Reads a piece, and keeps its parts. -/
def readPiece? (p : Pattern) (c : Cursor) : Option (Piece × Cursor) :=
  (p.read? c.remaining).map fun piece =>
    (piece, (c.pass piece.text (c.remaining.drop piece.text.length)).2)

/-- Reads a piece, and tells where it stands. -/
def read? (p : Pattern) (c : Cursor) : Option (Lexeme × Cursor) :=
  (p.read? c.remaining).map fun piece =>
    c.pass piece.text (c.remaining.drop piece.text.length)

/-- Moves over the separators in front. -/
def skipBlanks (c : Cursor) : Cursor :=
  (c.pass (c.remaining.takeWhile isBlank) (c.remaining.dropWhile isBlank)).2

theorem length_skipBlanks_le (c : Cursor) :
    c.skipBlanks.remaining.length ≤ c.remaining.length :=
  (List.dropWhile_suffix isBlank).sublist.length_le

/-- Skips separators and reads a piece, over and over, until a read fails or takes nothing. The
separators before the read that failed are skipped all the same. -/
def readAll (p : Pattern) (c : Cursor) : List Lexeme × Cursor :=
  match c.skipBlanks.read? p with
  | none => ([], c.skipBlanks)
  | some (lexeme, next) =>
      if next.remaining.length < c.skipBlanks.remaining.length then
        let later := next.readAll p
        (lexeme :: later.1, later.2)
      else ([], c.skipBlanks)
termination_by c.remaining.length
decreasing_by all_goals have := c.length_skipBlanks_le; omega

end Cursor

end FactorLabel
