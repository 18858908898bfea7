/-!
# Positional numerals

A natural number as its digits in a base, most significant first, and back. Zero has the one
digit `0`, and no other numeral starts with a zero, so two numbers never share a numeral.

Numbers are written in decimal almost everywhere. Identifiers are written in base thirty-six, and
any radix from two on may be asked for that the letters `a` to `z` have digits for above nine. A
radix outside that range has no numerals at all, not even for zero.
-/

namespace FactorLabel.Number

/-- The digits of `n` in front of `acc`. At most `fuel` of them are taken. -/
def digitsFrom (base : Nat) : Nat → Nat → List Nat → List Nat
  | 0, _, acc => acc
  | fuel + 1, n, acc =>
      if n / base = 0 then n % base :: acc
      else digitsFrom base fuel (n / base) (n % base :: acc)

/-- The digits of `n`, most significant first. No base above one takes more digits than base two,
so the fuel is enough. -/
def digits (base n : Nat) : List Nat := digitsFrom base (n.log2 + 1) n []

theorem digitsFrom_lt {base : Nat} (hb : 0 < base) (fuel n : Nat) (acc : List Nat)
    (hacc : ∀ d ∈ acc, d < base) : ∀ d ∈ digitsFrom base fuel n acc, d < base := by
  induction fuel generalizing n acc with
  | zero => exact hacc
  | succ fuel ih =>
      have hcons : ∀ d ∈ n % base :: acc, d < base := by
        intro d hd
        rcases List.mem_cons.mp hd with rfl | hd
        · exact Nat.mod_lt _ hb
        · exact hacc d hd
      simp only [digitsFrom]
      split
      · exact hcons
      · exact ih _ _ hcons

theorem digits_lt {base : Nat} (hb : 0 < base) (n : Nat) : ∀ d ∈ digits base n, d < base :=
  digitsFrom_lt hb _ _ _ (by simp)

/-- The number that `ds` stands for. -/
def ofDigits (base : Nat) (ds : List Nat) : Nat := ds.foldl (fun n d => n * base + d) 0

/-- Decimal digits first, then the small Latin letters. -/
def digitChar (d : Nat) : Char :=
  if d < 10 then Char.ofNat ('0'.toNat + d) else Char.ofNat ('a'.toNat + (d - 10))

/-- The number that a decimal digit stands for. -/
def digitValue (c : Char) : Nat := c.toNat - '0'.toNat

/-- A number in decimal digits. -/
def decimalText (n : Nat) : List Char := (digits 10 n).map digitChar

/-- The number that decimal digits stand for. -/
def decimalValue (s : List Char) : Nat := ofDigits 10 (s.map digitValue)

/-- The last `width` decimal digits of `n`, in front of `acc`. -/
def lastDigitsFrom : Nat → Nat → List Char → List Char
  | 0, _, acc => acc
  | width + 1, n, acc => lastDigitsFrom width (n / 10) (digitChar (n % 10) :: acc)

/-- The last `width` decimal digits of `n`, with zeros in front where it has fewer. -/
def lastDigits (width n : Nat) : List Char := lastDigitsFrom width n []

/-! ## Numerals in a chosen radix -/

/-- Why a numeral or a digit cannot be written. -/
inductive RadixError where
  | outOfBounds
  | invalidDigit (digit : Nat)
  deriving DecidableEq, Repr

namespace RadixError

/-- The wording of the error. -/
def message : RadixError → String
  | outOfBounds => "Radix out of bounds"
  | invalidDigit d => "Invalid digit " ++ String.ofList (decimalText d) ++ " in radix"

end RadixError

/-- The character of a digit below thirty-six. -/
def digitChar? (digit : Nat) : Except RadixError Char :=
  if digit < 36 then .ok (digitChar digit) else .error (.invalidDigit digit)

/-- `value` written in `radix`, most significant digit first. A digit is handed on in one byte. -/
def inRadix (value : UInt64) (radix : Nat) : Except RadixError String :=
  if 2 ≤ radix ∧ radix ≤ 36 then
    ((digits radix value.toNat).mapM fun d => digitChar? (d % 256)).map String.ofList
  else .error .outOfBounds

end FactorLabel.Number
