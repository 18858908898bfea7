/-!
# Double precision numbers

A double is a sign and a code: the sixty-three bits below the sign bit, read as a natural
number. The codes are in the order of the magnitudes. They come in binades, each of which has
a unit of its own, and below `infinityCode` a code stands for `significand` many of its units.
Above it come the codes that are not numbers.

The other way round, a quotient of natural numbers has a nearest double, where a half goes to the
even neighbour. The unit is fixed first, from the binary order of magnitude, and then the quotient
is rounded to a whole number of units. Rounding up to the next power of two needs no second look:
the code after the largest of one binade is the smallest of the next.
-/

namespace FactorLabel.Number

/-! ## Taking a double apart -/

/-- The weight of the sign bit: two to the sixty-third. -/
def signWeight : Nat := 0x8000000000000000

/-- The number of codes that share a unit: two to the fifty-second. -/
def binade : Nat := 0x10000000000000

/-- The code of infinity. Every smaller code is a finite magnitude. -/
def infinityCode : Nat := 2047 * binade

/-- All bits of `x` but the sign. -/
def code (x : Float) : Nat := x.toBits.toNat % signWeight

/-- The sign bit of `x`, which zero has too. -/
def signBit (x : Float) : Bool := Nat.ble signWeight x.toBits.toNat

/-- The double of the given sign and code. -/
def ofCode (negative : Bool) (c : Nat) : Float :=
  Float.ofBits (UInt64.ofNat (if negative then signWeight + c else c))

/-- How many units a code stands for. -/
def significand (c : Nat) : Nat := if c < binade then c else binade + c % binade

/-- The power of two that is the unit of a code. The lowest two binades share theirs. -/
def unitExponent (c : Nat) : Int := if c < binade then -1074 else (c / binade : Nat) - 1075

/-- The exact magnitude of a finite code, as a numerator. -/
def numerator (c : Nat) : Nat := significand c * Nat.pow 2 (unitExponent c).toNat

/-- The exact magnitude of a finite code, as a denominator. -/
def denominator (c : Nat) : Nat := Nat.pow 2 (-unitExponent c).toNat

/-! ## The nearest double -/

/-- The whole number nearest to `num / den`, a half going to the even neighbour. -/
def divRoundEven (num den : Nat) : Nat :=
  let q := num / den
  let r := num % den
  if 2 * r < den ∨ (2 * r = den ∧ q % 2 = 0) then q else q + 1

/-- The exponent of the largest power of two that is at most `num / den`, both positive. -/
def floorLog2 (num den : Nat) : Int :=
  let e : Int := num.log2 - den.log2
  if den * Nat.pow 2 e.toNat ≤ num * Nat.pow 2 (-e).toNat then e else e - 1

/-- The code of the double nearest to `num / den`, where `den` is positive. -/
def nearestCode (num den : Nat) : Nat :=
  if num = 0 then 0
  else
    let u := max (floorLog2 num den - 52) (-1074)
    let m := divRoundEven (num * Nat.pow 2 (-u).toNat) (den * Nat.pow 2 u.toNat)
    min ((u + 1074).toNat * binade + m) infinityCode

end FactorLabel.Number
