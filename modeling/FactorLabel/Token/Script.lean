import FactorLabel.Token.Cursor

/-!
# Scripts for a cursor

A use of a cursor as a value, and a script as a list of them. A use that fails leaves the cursor
where it is.
-/

namespace FactorLabel.Cursor

/-- One use of a cursor. -/
inductive Use where
  | advance (n : Nat)
  | read (p : Pattern)
  | readPiece (p : Pattern)
  | skipBlanks
  | readAll (p : Pattern)
  deriving DecidableEq, Repr

/-- What a use gives back. -/
inductive Answer where
  | lexeme (x : Lexeme)
  | piece (x : Piece)
  | lexemes (xs : List Lexeme)
  /-- Separators were skipped, and there is nothing to give back. -/
  | skipped
  /-- The pattern is not there. -/
  | missing
  /-- The move would have ended inside a character. -/
  | refused
  deriving DecidableEq, Repr

/-- What a use gives back, and where the cursor is after it. -/
def use (c : Cursor) : Use → Answer × Cursor
  | .advance n =>
      match c.advance? n with
      | some (x, next) => (.lexeme x, next)
      | none => (.refused, c)
  | .read p =>
      match c.read? p with
      | some (x, next) => (.lexeme x, next)
      | none => (.missing, c)
  | .readPiece p =>
      match c.readPiece? p with
      | some (x, next) => (.piece x, next)
      | none => (.missing, c)
  | .skipBlanks => (.skipped, c.skipBlanks)
  | .readAll p => (.lexemes (c.readAll p).1, (c.readAll p).2)

/-- Where the cursor is after a script. -/
def after (c : Cursor) (script : List Use) : Cursor := script.foldl (fun c u => (c.use u).2) c

end FactorLabel.Cursor
