import FactorLabel.Proofs.Number.Packed

/-!
# Signs of products and quotients

What a chain of factors needs of the arithmetic of doubles, and all it needs: one is neutral,
minus one negates, and a sign moves through a product and out of a quotient. These hold for
every double, infinities, zeros and the not-a-number included, because rounding looks at the
magnitude only.
-/

namespace FactorLabel.Number.Double

open Float.Model Float.Model.UnpackedFloat

/-! ## A double is its unpacked form -/

/-- The unpacked form of a double. -/
def unpacked (x : Float) : UnpackedFloat := x.toModel.unpack

/-- The double that an unpacked form is packed into. -/
def packed (u : UnpackedFloat) : Float := .ofModel (.pack u)

theorem packed_unpacked (x : Float) : packed (unpacked x) = x := Float.ofBits_toBits x

theorem unpacked_injective {x y : Float} (h : unpacked x = unpacked y) : x = y := by
  rw [← packed_unpacked x, h, packed_unpacked y]

theorem unpacked_packed_neg (u : UnpackedFloat) :
    unpacked (packed u.neg) = (unpacked (packed u)).neg := unpack_pack_neg u

theorem neg_eq (x : Float) : -x = packed (unpacked x).neg := rfl

theorem mul_eq (x y : Float) : x * y = packed (.mul .binary64 (unpacked x) (unpacked y)) := rfl

theorem div_eq (x y : Float) : x / y = packed (.div .binary64 (unpacked x) (unpacked y)) := rfl

theorem unpacked_neg (x : Float) : unpacked (-x) = (unpacked x).neg := by
  rw [neg_eq, unpacked_packed_neg, packed_unpacked]

/-! ## Signs at the unpacked level -/

theorem neg_mul_sign (s t : Sign) : -s * t = -(s * t) := by
  cases s <;> cases t <;> rfl

theorem mul_neg_sign (s t : Sign) : s * -t = -(s * t) := by
  cases s <;> cases t <;> rfl

theorem neg_div_neg_sign (s t : Sign) : -s / -t = s / t := by
  cases s <;> cases t <;> rfl

theorem mul_comm_sign (s t : Sign) : s * t = t * s := by
  cases s <;> cases t <;> rfl

theorem roundWithAccuracy_neg (s : Sign) (m : Nat) (e : Int) (a : Accuracy) :
    roundWithAccuracy .binary64 (-s) m e a = (roundWithAccuracy .binary64 s m e a).neg := by
  simp only [roundWithAccuracy]
  split <;> rfl

theorem neg_mul_unpacked (a b : UnpackedFloat) :
    UnpackedFloat.mul .binary64 a.neg b = (UnpackedFloat.mul .binary64 a b).neg := by
  cases a <;> cases b <;>
    simp only [UnpackedFloat.neg, UnpackedFloat.mul, neg_mul_sign, roundWithAccuracy_neg]

theorem mul_neg_unpacked (a b : UnpackedFloat) :
    UnpackedFloat.mul .binary64 a b.neg = (UnpackedFloat.mul .binary64 a b).neg := by
  cases a <;> cases b <;>
    simp only [UnpackedFloat.neg, UnpackedFloat.mul, mul_neg_sign, roundWithAccuracy_neg]

theorem mul_comm_unpacked (a b : UnpackedFloat) :
    UnpackedFloat.mul .binary64 a b = UnpackedFloat.mul .binary64 b a := by
  cases a <;> cases b <;>
    simp only [UnpackedFloat.mul, mul_comm_sign, Nat.mul_comm, Int.add_comm]

theorem neg_div_neg_unpacked (a b : UnpackedFloat) :
    UnpackedFloat.div .binary64 a.neg b.neg = UnpackedFloat.div .binary64 a b := by
  cases a <;> cases b <;>
    simp only [UnpackedFloat.neg, UnpackedFloat.div, neg_div_neg_sign]

/-! ## Multiplying by one -/

/-- A mantissa that was shifted left is shifted back without a rest. -/
theorem shiftRight_shifted (m n : Nat) :
    (ExtendedMantissa.ofMantissaAndAccuracy (m * 2 ^ n) .exact >>> n)
      = ExtendedMantissa.ofMantissaAndAccuracy m .exact := by
  show Nat.repeat ExtendedMantissa.shiftRightOne n ⟨m * 2 ^ n, false, false⟩ = ⟨m, false, false⟩
  induction n generalizing m with
  | zero => simp [Nat.repeat]
  | succ n ih =>
      have hshift : m * 2 ^ (n + 1) = (m * 2) * 2 ^ n := by rw [Nat.pow_succ]; ac_rfl
      rw [Nat.repeat, hshift, ih]
      simp [ExtendedMantissa.shiftRightOne]

theorem log2_shifted {m : Nat} (hm : 0 < m) (n : Nat) : (m * 2 ^ n).log2 = m.log2 + n := by
  have hpos : 0 < m * 2 ^ n := Nat.mul_pos hm (Nat.two_pow_pos n)
  have hlo : 2 ^ m.log2 ≤ m := Nat.log2_self_le (by omega)
  have hhi : m < 2 ^ (m.log2 + 1) := Nat.lt_log2_self
  refine (Nat.log2_eq_iff (by omega)).mpr ⟨?_, ?_⟩
  · rw [Nat.pow_add]
    exact Nat.mul_le_mul_right _ hlo
  · rw [show m.log2 + n + 1 = m.log2 + 1 + n by omega, Nat.pow_add]
    exact Nat.mul_lt_mul_of_pos_right hhi (Nat.two_pow_pos n)

/-- A mantissa on the grid already has the exponent that rounding would give it. -/
theorem targetExponent_of_onGrid {m : Nat} {e : Int} (h : OnGrid m e) :
    Format.binary64.targetExponent (m.log2 + 1 + e) = e := by
  have hlog : m.log2 < 53 := (Nat.log2_lt (by have := h.pos; omega)).mpr h.lt
  have hlo := h.lo
  show max ((m.log2 : Int) + 1 + e - 53) (-1074) = e
  rcases h.full with hfull | he
  · have : 52 ≤ m.log2 := (Nat.le_log2 (by omega)).mpr hfull
    omega
  · omega

/-- Shifting left by `n` is exact, so rounding finds the number again. -/
theorem roundWithAccuracy_shifted {s : Sign} {m : Nat} {e : Int} (hm : 0 < m) (h : OnGrid m e)
    (n : Nat) : roundWithAccuracy .binary64 s (m * 2 ^ n) (e - n) .exact = .finite s m e hm := by
  have hfirst : shiftToTargetExponent .binary64 (m * 2 ^ n) (e - n) .exact
      = (ExtendedMantissa.ofMantissaAndAccuracy m .exact, e) := by
    -- the first shift takes the `n` places off again
    have htotal : totalExponent (m * 2 ^ n) (e - n) = m.log2 + 1 + e := by
      rw [totalExponent, log2_shifted hm]
      omega
    have hshift : (e - (e - (n : Int))).toNat = n := by omega
    rw [shiftToTargetExponent, htotal, targetExponent_of_onGrid h, shiftToExponent, hshift,
      shiftRight_shifted]
    refine Prod.ext rfl ?_
    show e - n + n = e
    omega
  have hsecond : shiftToTargetExponent .binary64 m e .exact
      = (ExtendedMantissa.ofMantissaAndAccuracy m .exact, e) := by
    -- and then there is nothing left to shift
    have hshift : (e - e).toNat = 0 := by omega
    rw [shiftToTargetExponent, totalExponent, targetExponent_of_onGrid h, shiftToExponent, hshift]
    exact Prod.ext rfl (Int.add_zero e)
  have hround : (ExtendedMantissa.ofMantissaAndAccuracy m .exact).roundedMantissa = m := rfl
  simp only [roundWithAccuracy, hfirst, hround, hsecond]
  rw [dif_neg (by show m ≠ 0; omega)]
  rfl

theorem unpacked_one : unpacked 1 = .finite .positive (2 ^ 52) (-52) (by decide) := rfl

theorem mul_one (x : Float) : x * 1 = x := by
  have hmul : UnpackedFloat.mul .binary64 (unpacked x) (unpacked 1) = unpacked x := by
    rw [unpacked_one]
    cases hx : unpacked x with
    | notANumber => rfl
    | infinity s => cases s <;> rfl
    | zero s => cases s <;> rfl
    | finite s m e hm =>
        have hsign : s * Sign.positive = s := by cases s <;> rfl
        rw [UnpackedFloat.mul, hsign]
        -- the mantissa of one shifts the other by fifty-two places
        exact roundWithAccuracy_shifted hm (onGrid_of_unpack hx) 52
  rw [mul_eq, hmul, packed_unpacked]

/-! ## The laws -/

protected theorem mul_comm (x y : Float) : x * y = y * x := by
  rw [mul_eq, mul_comm_unpacked, ← mul_eq]

protected theorem one_mul (x : Float) : 1 * x = x := by
  rw [Double.mul_comm, mul_one]

theorem neg_mul (x y : Float) : -x * y = -(x * y) := by
  apply unpacked_injective
  rw [mul_eq, unpacked_neg, neg_mul_unpacked, unpacked_packed_neg, unpacked_neg, ← mul_eq]

theorem mul_neg (x y : Float) : x * -y = -(x * y) := by
  apply unpacked_injective
  rw [mul_eq, unpacked_neg, mul_neg_unpacked, unpacked_packed_neg, unpacked_neg, ← mul_eq]

theorem neg_div_neg (x y : Float) : -x / -y = x / y := by
  rw [div_eq, unpacked_neg, unpacked_neg, neg_div_neg_unpacked, ← div_eq]

theorem mul_neg_one (x : Float) : x * -1 = -x := by
  rw [mul_neg, mul_one]

theorem neg_neg (x : Float) : - -x = x := by
  apply unpacked_injective
  rw [unpacked_neg, unpacked_neg]
  cases unpacked x with
  | notANumber => rfl
  | infinity s => cases s <;> rfl
  | zero s => cases s <;> rfl
  | finite s m e hm => cases s <;> rfl

/-! ## Numbers that compare equal

Only zero has two forms, so what compares equal to one or to minus one is the same number. -/

theorem eq_of_beq {x y : Float} (hpos : y ≠ 0) (hneg : y ≠ -0) (h : (x == y) = true) :
    x = y := by
  rcases (Float.beq_iff_ne_nan_and_eq.mp h).2.2 with heq | ⟨_, hzero⟩ | ⟨_, hzero⟩
  · exact heq
  · exact absurd hzero hneg
  · exact absurd hzero hpos

theorem eq_one_of_beq {x : Float} (h : (x == 1) = true) : x = 1 :=
  eq_of_beq (by decide) (by decide) h

theorem eq_neg_one_of_beq {x : Float} (h : (x == -1) = true) : x = -1 :=
  eq_of_beq (by decide) (by decide) h

end FactorLabel.Number.Double
