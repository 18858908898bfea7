import FactorLabel.Display.Factor
import FactorLabel.Ratio
import FactorLabel.Text.Lowercase

/-!
# Displayed ratios

A ratio in reduced form: the quotient of the factors, and what is left of the labels once both
sides are cancelled. A chain is written as its ratios in parentheses, one after the other.

Labels with positive exponents stand above the line, those with negative ones below it. On each
side the larger power comes first, and among equal powers the alphabet decides, small and
capital letters alike. Labels that differ in nothing but case follow the order of their
characters, so the text does not depend on the order of the entries.

The defaults of the settings give the canonical form, as in `14400 grapes / h^2 • m`.
-/

namespace FactorLabel

/-! ## Settings -/

/-- Choices for the text of a reduced result. -/
structure Settings where
  /-- Places kept behind the point, before trailing zeros are dropped. -/
  decimalPlaces : Nat := 2
  /-- Between labels on the same side of the line. -/
  labelSeparator : String := " • "
  /-- The line itself. -/
  ratioSeparator : String := " / "
  deriving DecidableEq, Repr

namespace Settings

/-- The canonical form. -/
def default : Settings := {}

instance : Inhabited Settings := ⟨default⟩

end Settings

/-! ## Labels -/

namespace Power

/-- The label in lower case, by which equal powers are put in order. -/
def sortName (p : Power) : String := String.ofList (Text.lowercase p.label.toList)

/-- The order of the powers on one side of the line. -/
def order (p q : Power) : Ordering :=
  (compare q.exponent p.exponent).then
    ((compare p.sortName q.sortName).then (compare p.label q.label))

/-- May `p` stand before `q`? -/
def precedes (p q : Power) : Bool := (p.order q).isLE

end Power

namespace Settings

/-- The powers on one side of the line: sorted, written and joined by the separator. -/
def sideText (s : Settings) (ps : List Power) : String :=
  s.labelSeparator.intercalate ((ps.mergeSort Power.precedes).map Power.text)

/-- Labels with signed exponents. The line is left out if there is nothing to write below it. -/
def labelsText (s : Settings) (m : Labels) : String :=
  let above := s.sideText (m.entries.filter (0 < ·.exponent))
  let below := s.sideText ((m.entries.filter (!0 < ·.exponent)).map Power.inverse)
  if below.isEmpty then above else above ++ s.ratioSeparator ++ below

end Settings

/-! ## Ratios -/

namespace Ratio

/-- The factor above the line divided by the one below it. -/
def quotient (r : Ratio) : Float := r.numerator.factor / r.denominatorFactor

/-- The labels left over when both sides are cancelled. -/
def netLabels (r : Ratio) : Labels := r.numerator.labels.cancel r.denominatorLabels

end Ratio

namespace Settings

/-- The text without the separators in front. -/
def trimStart (s : String) : String := String.ofList (s.toList.dropWhile Text.isBlank)

/-- A ratio in reduced form: the rounded quotient, and behind a space the labels that are left.
Without any labels the quotient stands alone. -/
def ratioText (s : Settings) (r : Ratio) : String :=
  let factor := Display.factorText s.decimalPlaces r.quotient
  let labels := trimStart (s.labelsText r.netLabels)
  if labels.isEmpty then factor else factor ++ " " ++ labels

/-- A chain of ratios, each in reduced form and in parentheses. -/
def chainText (s : Settings) (rs : List Ratio) : String :=
  String.join (rs.map fun r => "(" ++ s.ratioText r ++ ")")

end Settings

end FactorLabel
