import FactorLabel.Number.Decimal
import FactorLabel.Proofs.Number.Digits
import FactorLabel.Proofs.Number.Value

/-!
# Written numbers read back

The search for a short decimal stops at one that reads back, and if it finds none the exact
value stands in, which reads back as well. What is written of the decimal, whole digits and the
digits after the point, is the decimal again when it is read. So a code that is written out is
found again.
-/

namespace FactorLabel.Number

namespace Decimal

/-! ## The text of a decimal -/

/-- What is written in front of the point and behind it is read as the decimal again, with the
power of ten multiplied out where it is not negative. -/
theorem ofParts_text (d : Decimal) :
    ofParts (decimalText d.whole) d.fraction
      = ⟨d.digits * 10 ^ d.exponent.toNat, min d.exponent 0⟩ := by
  have hlength : d.fraction.length = (-d.exponent).toNat := length_lastDigits _ _
  have hvalue : decimalValue (decimalText d.whole ++ d.fraction)
      = d.whole * 10 ^ (-d.exponent).toNat + d.digits % 10 ^ (-d.exponent).toNat := by
    rw [decimalValue_append, decimalValue_decimalText, hlength, fraction, decimalValue_lastDigits]
  have hdigits : d.whole * 10 ^ (-d.exponent).toNat + d.digits % 10 ^ (-d.exponent).toNat
      = d.digits * 10 ^ d.exponent.toNat := by
    show d.digits * 10 ^ d.exponent.toNat / 10 ^ (-d.exponent).toNat * _ + _ = _
    -- either there is no fraction, or nothing is multiplied out
    rcases Int.le_total 0 d.exponent with hexp | hexp
    · rw [Int.toNat_eq_zero.mpr (by omega : -d.exponent ≤ 0), Nat.pow_zero, Nat.div_one,
        Nat.mul_one, Nat.mod_one, Nat.add_zero]
    · rw [Int.toNat_eq_zero.mpr hexp, Nat.pow_zero, Nat.mul_one, Nat.div_add_mod']
  have hexponent : -((-d.exponent).toNat : Int) = min d.exponent 0 := by omega
  rw [ofParts, hvalue, hdigits, hlength, hexponent]

theorem value_ofParts_text (d : Decimal) :
    (ofParts (decimalText d.whole) d.fraction).value = d.value := by
  rw [ofParts_text]
  obtain ⟨n, e⟩ := d
  -- the powers of ten that were multiplied out are those that are missing from the exponent
  have hten : (10 : ℚ) ^ e.toNat * 10 ^ min e 0 = 10 ^ e := by
    rw [← zpow_natCast, ← zpow_add₀ (by norm_num)]
    congr 1
    omega
  simp only [value, Nat.cast_mul, Nat.cast_pow, Nat.cast_ofNat, mul_assoc, hten]

/-- Reading back what is written of a decimal gives the code that the decimal gives. -/
theorem nearestCode_ofParts_text (d : Decimal) :
    (ofParts (decimalText d.whole) d.fraction).nearestCode = d.nearestCode :=
  nearestCode_congr d.value_ofParts_text

end Decimal

/-! ## Shortest decimals -/

theorem value_exactDecimal (c : Nat) : (exactDecimal c).value = magnitude c := by
  rw [exactDecimal]
  obtain ⟨n, hn | hn⟩ := (unitExponent c).eq_nat_or_neg
  · rw [if_pos (by omega), Decimal.value, magnitude, numerator, hn]
    simp
  · rcases Nat.eq_zero_or_pos n with rfl | hpos
    · rw [if_pos (by omega), Decimal.value, magnitude, numerator, hn]
      simp
    -- a half is five tenths
    · have hten : (10 : ℚ) ^ (-(n : ℤ)) = (5 ^ n)⁻¹ * (2 ^ n)⁻¹ := by
        rw [zpow_neg, zpow_natCast, ← mul_inv, ← mul_pow]
        norm_num
      rw [if_neg (by omega), Decimal.value, magnitude, hn, hten]
      simp only [neg_neg, Int.toNat_natCast, Nat.pow_eq, Nat.cast_mul, Nat.cast_pow,
        Nat.cast_ofNat, zpow_neg, zpow_natCast]
      rw [mul_assoc, mul_inv_cancel_left₀ (by positivity)]

/-- **What is written reads back.** -/
theorem nearestCode_shortest (t : Tie) {c : Nat} (hfin : c < infinityCode) :
    (shortest t c).nearestCode = c := by
  rw [shortest]
  split
  · rename_i hc
    rw [hc]
    rfl
  · cases hfind : (candidates t c).find? fun d => d.nearestCode == c with
    -- no candidate reads back, and the exact value stands in
    | none => exact Decimal.nearestCode_of_value hfin (value_exactDecimal c)
    | some d =>
        have hd := List.find?_some hfind
        exact beq_iff_eq.mp hd

end FactorLabel.Number
