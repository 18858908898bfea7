import FactorLabel.Json.Value
import FactorLabel.Number.Decimal
import FactorLabel.Text.Span

/-!
# JSON numbers

Reading and writing a number, and the doubles and integers that numbers stand for.

A double is written with the fewest digits that read back, positionally from `10 ^ (-5)` up to
`10 ^ 16` and with an exponent outside that range. Halfway between two candidates the even
digit is taken, and a whole number is marked as a double by `.0`.
-/

namespace FactorLabel.Json.Number

open FactorLabel.Number Text

/-! ## Text -/

/-- The exponent part: always with a sign, and without zeros in front. -/
def exponentText : Option Int → List Char
  | none => []
  | some e => 'e' :: (if e < 0 then '-' else '+') :: decimalText e.natAbs

/-- The number as it is written. -/
def text (n : Number) : List Char :=
  (if n.negative then ['-'] else []) ++ decimalText n.whole ++
    (if n.fraction.isEmpty then [] else '.' :: n.fraction) ++ exponentText n.exponent

/-- Digits at the front, at least one. -/
def readDigits? (s : List Char) : Option (List Char × List Char) :=
  if (s.takeWhile Char.isDigit).isEmpty then none
  else some (s.takeWhile Char.isDigit, s.dropWhile Char.isDigit)

/-- The whole part. A zero is not followed by more digits. -/
def readWhole? (s : List Char) : Option (Nat × List Char) :=
  match readDigits? s with
  | some (ds, rest) =>
      if ds.head? = some '0' ∧ ds.length ≠ 1 then none else some (decimalValue ds, rest)
  | none => none

/-- A point and the digits after it, or nothing. -/
def readFraction? (s : List Char) : Option (List Char × List Char) :=
  match s with
  | '.' :: rest => readDigits? rest
  | _ => some ([], s)

/-- The sign of an exponent, negative or not, and what comes after it. -/
def takeSign (s : List Char) : Bool × List Char :=
  match s with
  | '-' :: rest => (true, rest)
  | '+' :: rest => (false, rest)
  | _ => (false, s)

/-- The exponent part, or nothing. -/
def readExponent? (s : List Char) : Option (Option Int × List Char) :=
  match s with
  | [] => some (none, [])
  | c :: rest =>
      if c = 'e' ∨ c = 'E' then
        let (negative, rest) := takeSign rest
        (readDigits? rest).map fun (ds, rest) =>
          (some (if negative then -(decimalValue ds : Int) else decimalValue ds), rest)
      else some (none, s)

/-- The number at the front of a text, and what comes after it. -/
def read? (s : List Char) : Option (Number × List Char) := do
  let (negative, s) := takeMark '-' s
  let (whole, s) ← readWhole? s
  let (fraction, s) ← readFraction? s
  let (exponent, s) ← readExponent? s
  some (⟨negative, whole, fraction, exponent⟩, s)

/-! ## Doubles -/

/-- The number without its sign. -/
def magnitude (n : Number) : Decimal :=
  ⟨n.whole * Nat.pow 10 n.fraction.length + decimalValue n.fraction,
    n.exponent.getD 0 - n.fraction.length⟩

/-- The nearest double, if the number is not past all of them. -/
def toFloat? (n : Number) : Option Float :=
  let x := n.magnitude.toFloat n.negative
  if x.isFinite then some x else none

/-- Is a number whose first digit has the place value `10 ^ e` written positionally? -/
def isPositional (e : Int) : Bool := decide (-5 ≤ e) && decide (e ≤ 15)

/-- A decimal as it is written: positionally, or with one digit in front of the point and an
exponent. -/
def ofDecimal (negative : Bool) (d : Decimal) : Number :=
  let rest := (decimalText d.digits).length - 1
  let e := d.exponent + rest
  if isPositional e then
    ⟨negative, d.whole, if d.fraction.isEmpty then ['0'] else d.fraction, none⟩
  else ⟨negative, d.digits / Nat.pow 10 rest, lastDigits rest d.digits, some e⟩

/-- The number that a double is written as, with as few digits as read back. -/
def ofFloat (x : Float) : Number := ofDecimal (signBit x) (shortest .even (code x))

example : (ofFloat 1e15).text = "1000000000000000.0".toList := by decide +kernel

example : (ofFloat 1e16).text = "1e+16".toList := by decide +kernel

example : (ofFloat 0.00001).text = "0.00001".toList := by decide +kernel

example : (ofFloat 0.0000012).text = "1.2e-6".toList := by decide +kernel

example : (ofFloat 1947715395711516.25).text = "1947715395711516.2".toList := by decide +kernel

/-! ## Integers -/

/-- An integer, without point and exponent. -/
def ofInt (n : Int) : Number := ⟨decide (n < 0), n.natAbs, [], none⟩

/-- The integer that is written without point and exponent. There is no integer `-0`. -/
def toInt? (n : Number) : Option Int :=
  if n.fraction.isEmpty ∧ n.exponent = none ∧ ¬(n.negative ∧ n.whole = 0) then
    some (if n.negative then -(n.whole : Int) else n.whole)
  else none

end FactorLabel.Json.Number
