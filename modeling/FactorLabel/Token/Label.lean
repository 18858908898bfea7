import FactorLabel.Labels.Basic
import FactorLabel.Number.Radix
import FactorLabel.Text.CharSet
import FactorLabel.Text.Emoji
import FactorLabel.Text.Letter
import FactorLabel.Text.Numeral

/-!
# Label tokens

A written label: a name, and after a caret the exponent. A name starts with a letter, a degree
sign or an emoji, and goes on with letters, numerals, a few marks and whatever holds a compound
emoji together. No name has a caret in it, so the first caret is where the exponent begins.
-/

namespace FactorLabel

open Text Number

/-- The parts of a written label. -/
structure LabelToken where
  label : List Char
  /-- The numerals after the caret. -/
  power : Option (List Char)
  deriving DecidableEq, Repr

/-- Can a label start like this? Characters that are emoji by default may stand alone; the others
need the variation selector behind them. -/
def startsLabel : List Char → Bool
  | [] => false
  | c :: rest =>
      isLetter c || c == '°' || emojiModifierBase.contains c || emojiPresentation.contains c
        || (emoji.contains c && rest.head? == some pictureSelector)

/-- The punctuation marks that a label may go on with. -/
def labelMarks : List Char := ['-', '_', '#', '@', '~', '°', '!']

/-- Can a label go on with the character? -/
def continuesLabel (c : Char) : Bool :=
  emoji.contains c || emojiModifierBase.contains c || emojiModifier.contains c
    || c == pictureSelector || emojiPresentation.contains c || joinControls.contains c
    || isLetter c || isNumeral c || labelMarks.contains c

/-- Is `s` a label, without an exponent? -/
def isLabel (s : List Char) : Bool := startsLabel s && s.tail.all continuesLabel

namespace LabelToken

/-- The label as written. -/
def text (t : LabelToken) : List Char :=
  match t.power with
  | none => t.label
  | some power => t.label ++ '^' :: power

/-- What stands behind the label: nothing, or a caret and at least one numeral. -/
def readPower? : List Char → Option (Option (List Char))
  | [] => some none
  | _ :: power => if !power.isEmpty && power.all isNumeral then some (some power) else none

/-- The label that the whole text is, if it is one. -/
def whole? (s : List Char) : Option LabelToken :=
  let label := s.takeWhile (· ≠ '^')
  if isLabel label then (readPower? (s.dropWhile (· ≠ '^'))).map (⟨label, ·⟩) else none

/-- The exponent that numerals stand for. Decimal digits are counted up to the first numeral of
another kind, and stop at the largest exponent. Other numerals have no value, and with one of
them, as with the value zero, the exponent is one. -/
def powerValue (power : List Char) : Exponent :=
  let n := decimalValue (power.takeWhile Char.isDigit)
  if Exponent.largest.toInt < n then Exponent.largest
  else if power.all Char.isDigit && n != 0 then Int64.ofNat n
  else 1

example : powerValue "99999999999999999999".toList = Exponent.largest := by decide +kernel

example : powerValue "2²".toList = 1 := by decide +kernel

/-- The exponent of the label, one unless another is written. -/
def exponent (t : LabelToken) : Exponent := (t.power.map powerValue).getD 1

end LabelToken

end FactorLabel
