import FactorLabel.Number.Decimal
import FactorLabel.Text.CharSet
import FactorLabel.Text.Numeral
import FactorLabel.Text.Span

/-!
# Factor tokens

A written factor: a minus sign, numerals, a point with more numerals, a percent sign, of which
only the first numerals are required. The longest one at the front of a text is read. No
shorter one could do better: what comes after it is a numeral, a point or a percent sign, and
none of these ends a word.
-/

namespace FactorLabel

open Text Number

/-- The parts of a written factor. -/
structure FactorToken where
  negative : Bool
  whole : List Char
  /-- The numerals after the point; there is no point without them. -/
  fraction : List Char
  percent : Bool
  deriving DecidableEq, Repr

namespace FactorToken

/-- The factor as written, without the percent sign. -/
def numberText (t : FactorToken) : List Char :=
  (if t.negative then ['-'] else []) ++ t.whole ++
    (if t.fraction.isEmpty then [] else '.' :: t.fraction)

/-- The percent sign, if there is one. -/
def percentText (t : FactorToken) : List Char := if t.percent then ['%'] else []

/-- The factor as written. -/
def text (t : FactorToken) : List Char := t.numberText ++ t.percentText

/-- Takes a point and the numerals after it off the front, if both are there. -/
def takeFraction (s : List Char) : List Char × List Char :=
  match s with
  | '.' :: rest =>
      if (rest.takeWhile isNumeral).isEmpty then ([], s)
      else (rest.takeWhile isNumeral, rest.dropWhile isNumeral)
  | _ => ([], s)

/-- The longest factor at the front of `s`, and what comes after it. -/
def read? (s : List Char) : Option (FactorToken × List Char) :=
  let (negative, s) := takeMark '-' s
  let whole := s.takeWhile isNumeral
  if whole.isEmpty then none
  else
    let (fraction, s) := takeFraction (s.dropWhile isNumeral)
    let (percent, s) := takeMark '%' s
    some (⟨negative, whole, fraction, percent⟩, s)

/-- The factor that the whole text is, if it is one. -/
def whole? (s : List Char) : Option FactorToken :=
  match read? s with
  | some (t, []) => some t
  | _ => none

/-- The factor at the front of `s`, the separators that end it, and what comes after them. There
need not be separators at the end of the text. -/
def segment? (s : List Char) : Option (FactorToken × List Char × List Char) :=
  match read? s with
  | some (t, rest) =>
      if rest.isEmpty ∨ !(rest.takeWhile isBlank).isEmpty then
        some (t, rest.takeWhile isBlank, rest.dropWhile isBlank)
      else none
  | none => none

/-- Are all numerals ASCII digits? -/
def isAscii (t : FactorToken) : Bool := (t.whole ++ t.fraction).all Char.isDigit

/-- The number that the factor stands for. Numerals of other scripts have no value, and with one of
them the whole factor counts as one. There is no negative zero. -/
def value (t : FactorToken) : Float :=
  if t.isAscii then
    let x := (Decimal.ofParts t.whole t.fraction).toFloat t.negative
    let x := if t.percent then x / 100 else x
    if x == 0 then 0 else x
  else 1

end FactorToken

end FactorLabel
