import FactorLabel.Number.Decimal

/-!
# Displayed factors

A factor as it is shown to a reader: rounded to some decimal places, without trailing zeros.

The rounding is done on doubles. The factor is scaled by a power of ten, rounded to a whole
number with halves going away from zero, and scaled back; then the result is written with a
fixed number of places. Where the scaled number is too large for a double, the factor is left
as it is.
-/

namespace FactorLabel.Display

open Number

/-- `r * a ^ n` by repeated squaring. At most `fuel` bits of `n` are used. -/
def powerBySquaring : Nat → Float → Float → Nat → Float
  | 0, r, _, _ => r
  | fuel + 1, r, a, n =>
      let r := if n % 2 = 1 then r * a else r
      if n / 2 = 0 then r else powerBySquaring fuel r (a * a) (n / 2)

/-- Ten to the power `n`, as a double. The bits of `n` are fewer than `n + 2`. -/
def powerOfTen (n : Nat) : Float := powerBySquaring (n.log2 + 1) 1 10 n

/-- The nearest whole number, halves going away from zero. -/
def roundHalfAway (x : Float) : Float :=
  let c := code x
  if infinityCode ≤ c ∨ 0 ≤ unitExponent c then x
  else
    let den := denominator c
    ofCode (signBit x) (nearestCode ((2 * numerator c + den) / (2 * den)) 1)

/-- The factor rounded to `places` decimal places, by scaling it and scaling it back. It is left as
it is where the scaled factor is too large for a double. -/
def roundPlaces (places : Nat) (x : Float) : Float :=
  let scale := powerOfTen places
  let scaled := x * scale
  if scaled.isFinite then roundHalfAway scaled / scale else x

/-- Takes a character off the end as often as it stands there. -/
def trimEnd (c : Char) (s : List Char) : List Char := (s.reverse.dropWhile (· == c)).reverse

/-- Takes zeros off the end of the decimal places, and the point if no place is left. A text without
a point is kept: its zeros are tens. -/
def trimPlaces (s : List Char) : List Char :=
  if s.contains '.' then trimEnd '.' (trimEnd '0' s) else s

/-- A finite factor with at most `places` decimal places. There is no negative zero. -/
def finiteText (places : Nat) (x : Float) : List Char :=
  let s := trimPlaces (fixedText places (roundPlaces places x))
  if s = ['-', '0'] then ['0'] else s

/-- A factor with at most `places` decimal places. -/
def factorText (places : Nat) (x : Float) : String :=
  if x.isNaN then "NaN"
  else if x.isInf then (if 0 < x then "∞" else "-∞")
  else String.ofList (finiteText places x)

example : factorText 2 0.125 = "0.13" := by decide +kernel

example : factorText 2 (-0.001) = "0" := by decide +kernel

example : factorText 0 100 = "100" := by decide +kernel

end FactorLabel.Display
