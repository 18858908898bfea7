import FactorLabel.Text.Span
import FactorLabel.Token.Factor
import FactorLabel.Token.Label

/-!
# Patterns

The five kinds of piece that an edit field is cut into. A pattern is tried at the front of a
text, and gives the text it takes together with the parts that have a name of their own.
-/

namespace FactorLabel

open Text

/-- What can be looked for at the front of a text. -/
inductive Pattern where
  /-- A factor with the separators after it, or at the end of the text. -/
  | factorSegment
  /-- A factor that is the whole text. -/
  | factor
  /-- A label, perhaps with an exponent, that is the whole text. -/
  | label
  /-- A run of characters without a separator. -/
  | run
  /-- Any number of separators, none included. -/
  | separator
  deriving DecidableEq, Repr

/-- A named part of a piece: where it starts, in bytes, and what it is. -/
structure Part where
  offset : Nat
  text : List Char
  deriving DecidableEq, Repr

/-- A piece that a pattern took, with its parts. A part may be missing. -/
structure Piece where
  text : List Char
  parts : List (Option Part)
  deriving DecidableEq, Repr

namespace Part

/-- The bytes of the part, in the text whose front was looked at. -/
def span (p : Part) : Span := .of p.offset p.text

end Part

namespace Piece

/-- The whole piece as a part, and after it the parts. -/
def groups (p : Piece) : List (Option Part) := some ⟨0, p.text⟩ :: p.parts

end Piece

namespace Pattern

/-- A factor without the separators, and the separators. -/
def ofSegment (t : FactorToken) (gap : List Char) : Piece := ⟨t.text ++ gap, [some ⟨0, t.text⟩]⟩

/-- A number, and the percent sign after it, which may be empty. -/
def ofFactor (t : FactorToken) : Piece :=
  ⟨t.text, [some ⟨0, t.numberText⟩, some ⟨byteLength t.numberText, t.percentText⟩]⟩

/-- A label, and the numerals of its exponent, one byte behind it. -/
def ofLabel (t : LabelToken) : Piece :=
  ⟨t.text, [some ⟨0, t.label⟩, t.power.map fun power => ⟨byteLength t.label + 1, power⟩]⟩

/-- What the pattern takes off the front of a text. -/
def read? (p : Pattern) (s : List Char) : Option Piece :=
  match p with
  | factorSegment => (FactorToken.segment? s).map fun (t, gap, _) => ofSegment t gap
  | factor => (FactorToken.whole? s).map ofFactor
  | label => (LabelToken.whole? s).map ofLabel
  | run =>
      let text := s.takeWhile (!isBlank ·)
      if text.isEmpty then none else some ⟨text, []⟩
  | separator => some ⟨s.takeWhile isBlank, []⟩

end Pattern

end FactorLabel
