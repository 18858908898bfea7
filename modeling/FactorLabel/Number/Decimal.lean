import FactorLabel.Number.Binary
import FactorLabel.Number.Radix

/-!
# Decimal numbers

A decimal is a natural number times a power of ten. It is read as the nearest double, and it
is written positionally: whole digits, then, if the power of ten is negative, a point and as
many digits again.

A double is written as one of two decimals. One has a fixed number of places: it is the exact value
rounded to so many, a half going to the even neighbour. The other is the shortest that reads back.
Of the decimals whose nearest double is the given one, it has the fewest digits, and of those it is
the closest.

The shortest decimal is found on the grids of multiples of a power of ten, which are tried from
coarse to fine. The numbers that read back as one double form an interval around it, so if a grid
has such a number, one of the two neighbours of the exact value on that grid is one. Which neighbour
is taken when both are equally close is left to the caller. Every double has an exact decimal, with
as many digits as it takes, and that one stands in should no grid answer. So what is returned always
reads back.
-/

namespace FactorLabel.Number

/-- The number `digits * 10 ^ exponent`. -/
structure Decimal where
  digits : Nat
  exponent : Int
  deriving DecidableEq, Repr

namespace Decimal

/-- The decimal with the given whole digits and the given digits after the point. -/
def ofParts (whole fraction : List Char) : Decimal :=
  ⟨decimalValue (whole ++ fraction), -(fraction.length : Int)⟩

/-- The code of the nearest double. Numbers from `10 ^ 311` on are past every double, and
numbers below `10 ^ (-330)` are nearest to zero: neither needs its powers of ten worked out. -/
def nearestCode (d : Decimal) : Nat :=
  if d.digits = 0 then 0
  else if 310 < d.exponent then infinityCode
  else if d.exponent + d.digits.log2 + 1 < -330 then 0
  else Number.nearestCode (d.digits * Nat.pow 10 d.exponent.toNat) (Nat.pow 10 (-d.exponent).toNat)

/-- The nearest double of the given sign. -/
def toFloat (negative : Bool) (d : Decimal) : Float := ofCode negative d.nearestCode

/-- The number in front of the point. -/
def whole (d : Decimal) : Nat :=
  d.digits * Nat.pow 10 d.exponent.toNat / Nat.pow 10 (-d.exponent).toNat

/-- The digits behind the point, as many as the power of ten asks for. -/
def fraction (d : Decimal) : List Char := lastDigits (-d.exponent).toNat d.digits

/-- Whole digits, then the point and the digits after it, if there are any. -/
def text (d : Decimal) : List Char :=
  decimalText d.whole ++ (if d.fraction.isEmpty then [] else '.' :: d.fraction)

end Decimal

/-! ## A fixed number of places -/

/-- The magnitude of a finite code, rounded to `places` decimal places. -/
def roundedDecimal (places c : Nat) : Decimal :=
  ⟨divRoundEven (numerator c * Nat.pow 10 places) (denominator c), -(places : Int)⟩

/-- A minus sign where the sign bit is set, and nothing otherwise. -/
def signText (x : Float) : List Char := if signBit x then ['-'] else []

/-- A finite double with exactly `places` digits after the point, and no point for none. -/
def fixedText (places : Nat) (x : Float) : List Char :=
  signText x ++ (roundedDecimal places (code x)).text

/-! ## The shortest decimal that reads back -/

/-- Which of two neighbours is taken when the exact value is halfway between them. -/
inductive Tie where
  | up
  | even
  deriving DecidableEq, Repr

/-- Is the upper neighbour taken, halfway above the multiple `low`? -/
def Tie.goesUp (t : Tie) (low : Nat) : Bool :=
  match t with
  | .up => true
  | .even => low % 2 == 1

/-- The neighbours of `num / den` among the multiples of `10 ^ p`, the nearer one first. -/
def neighbours (t : Tie) (num den : Nat) (p : Int) : List Decimal :=
  let n := num * Nat.pow 10 (-p).toNat
  let d := den * Nat.pow 10 p.toNat
  let low := n / d
  let r := n % d
  let upFirst := if 2 * r = d then t.goesUp low else Nat.blt d (2 * r)
  if upFirst then [⟨low + 1, p⟩, ⟨low, p⟩] else [⟨low, p⟩, ⟨low + 1, p⟩]

/-- The decimal that a finite code is, without any rounding. -/
def exactDecimal (c : Nat) : Decimal :=
  if 0 ≤ unitExponent c then ⟨numerator c, 0⟩
  else ⟨significand c * Nat.pow 5 (-unitExponent c).toNat, unitExponent c⟩

/-- An exponent with `10 ^ coarsest` above the magnitude of `c`, and less than three too high. -/
def coarsest (c : Nat) : Int :=
  (floorLog2 (numerator c) (denominator c) + 1) * 30103 / 100000 + 2

/-- The candidates, from the coarsest grid to one with at least seventeen digits. -/
def candidates (t : Tie) (c : Nat) : List Decimal :=
  (List.range 24).flatMap fun i : Nat =>
    neighbours t (numerator c) (denominator c) (coarsest c - i)

/-- The shortest decimal whose nearest double has the code `c`. -/
def shortest (t : Tie) (c : Nat) : Decimal :=
  if c = 0 then ⟨0, 0⟩
  else ((candidates t c).find? fun d => d.nearestCode == c).getD (exactDecimal c)

/-! ## Plain text -/

/-- The digits of a finite double, whatever its size. -/
def plainDigits (x : Float) : List Char := signText x ++ (shortest .up (code x)).text

/-- A double as a user would type it, or a word where it is no number. -/
def plainText (x : Float) : String :=
  if x.isNaN then "NaN"
  else if x.isInf then String.ofList (signText x) ++ "inf"
  else String.ofList (plainDigits x)

example : plainText 1e21 = "1000000000000000000000" := by decide +kernel

example : plainText (-0.1) = "-0.1" := by decide +kernel

example : plainText 1947715395711516.25 = "1947715395711516.3" := by decide +kernel

end FactorLabel.Number
