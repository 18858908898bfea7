import FactorLabel.Number.Decimal
import FactorLabel.Proofs.Number.Sign

/-!
# Which doubles are numbers

A double that was read is a number, though perhaps an infinite one: digits are cut off at the
code of infinity, and the codes that are no numbers lie above it. Dividing by a hundred keeps that.
-/

namespace FactorLabel.Number

open Float.Model Float.Model.UnpackedFloat

/-! ## Patterns -/

theorem toNat_mantissaField (b : Bits) : (unpackMantissa b).toNat = b.toNat % 2 ^ 52 := by
  simp [unpackMantissa]

/-- Only the largest exponent is kept for what is no number, and there the mantissa zero is
infinity. -/
theorem isNaN_unpack_packComponents {e : BitVec 11} {m : BitVec 52} (s : Sign)
    (h : e ≠ -1#11 ∨ m = 0#52) :
    (UnpackedFloat.unpack .binary64 (packComponents .binary64 s e m)).isNaN = false := by
  rw [unpack_eq]
  simp only [unpackExponent_packComponents, unpackMantissa_packComponents]
  split
  · rename_i he
    rw [if_pos (h.resolve_left fun hne => hne he)]
    rfl
  · split
    · split <;> rfl
    · rfl

/-- Packing makes no number out of what is none, and the other way round. -/
theorem isNaN_unpack_pack (u : UnpackedFloat) :
    (UnpackedFloat.unpack .binary64 (UnpackedFloat.pack .binary64 u)).isNaN = u.isNaN := by
  cases u with
  | notANumber => rfl
  | infinity s => exact isNaN_unpack_packComponents s (.inr rfl)
  | zero s => exact isNaN_unpack_packComponents s (.inr rfl)
  | finite s m e hm =>
      simp only [UnpackedFloat.pack]
      split
      · exact isNaN_unpack_packComponents s (.inr rfl)
      · rename_i hlt
        split
        · refine isNaN_unpack_packComponents s (.inl fun he => ?_)
          have hfield := congrArg BitVec.toNat he
          rw [BitVec.toNat_ofNat] at hfield
          have hones : (-1#11 : BitVec 11).toNat = 2047 := rfl
          omega
        · exact isNaN_unpack_packComponents s (.inl (by decide))

theorem isNaN_unpack_of_code {b : Bits} (h : b.toNat % signWeight ≤ infinityCode) :
    (UnpackedFloat.unpack .binary64 b).isNaN = false := by
  have hexp := toNat_exponentField b
  have hman := toNat_mantissaField b
  have hsign : signWeight = 2 ^ 63 := rfl
  have hinf : infinityCode = 2047 * 2 ^ 52 := rfl
  rw [hsign, hinf] at h
  rw [unpack_eq]
  split
  · rename_i hones
    have hmax : (unpackExponent b).toNat = 2047 := by
      rw [hones]
      rfl
    have hzero : unpackMantissa b = 0#52 := by
      refine BitVec.eq_of_toNat_eq ?_
      show (unpackMantissa b).toNat = 0
      omega
    rw [if_pos hzero]
    rfl
  · split
    · split <;> rfl
    · rfl

namespace Double

theorem isNaN_packed (u : UnpackedFloat) : (packed u).isNaN = u.isNaN := isNaN_unpack_pack u

theorem ne_nan_of_isNaN_eq_false {x : Float} (h : x.isNaN = false) : x ≠ Float.nan := by
  rintro rfl
  exact absurd h (by decide +kernel)

/-- A code up to that of infinity is a number, with either sign. -/
theorem isNaN_ofCode {c : Nat} (negative : Bool) (h : c ≤ infinityCode) :
    (ofCode negative c).isNaN = false := by
  have hsign : signWeight = 2 ^ 63 := rfl
  have hinf : infinityCode = 2047 * 2 ^ 52 := rfl
  refine (isNaN_unpack_pack _).trans (isNaN_unpack_of_code ?_)
  show (if negative then signWeight + c else c) % 2 ^ 64 % signWeight ≤ infinityCode
  rw [hinf] at h
  rw [hsign, hinf]
  split <;> omega

/-- A number over one that is neither zero nor infinite is a number. -/
theorem isNaN_div {x y : Float} {s : Sign} {m : Nat} {e : Int} {hm : 0 < m}
    (hx : x.isNaN = false) (hy : unpacked y = .finite s m e hm) : (x / y).isNaN = false := by
  have hx : (unpacked x).isNaN = false := hx
  rw [div_eq, isNaN_packed, hy]
  cases hu : unpacked x with
  | notANumber =>
      rw [hu] at hx
      exact hx
  | infinity | zero => rfl
  | finite s' m' e' hm' =>
      simp only [UnpackedFloat.div, roundWithAccuracy]
      split <;> rfl

end Double

/-! ## Decimals -/

theorem nearestCode_le (num den : Nat) : nearestCode num den ≤ infinityCode := by
  rw [nearestCode]
  split
  · exact Nat.zero_le _
  · exact Nat.min_le_right _ _

theorem Decimal.nearestCode_le (d : Decimal) : d.nearestCode ≤ infinityCode := by
  rw [Decimal.nearestCode]
  split
  · exact Nat.zero_le _
  · split
    · exact Nat.le_refl _
    · split
      · exact Nat.zero_le _
      · exact Number.nearestCode_le _ _

/-- **Digits are read as a number.** -/
theorem Decimal.isNaN_toFloat (negative : Bool) (d : Decimal) :
    (d.toFloat negative).isNaN = false :=
  Double.isNaN_ofCode negative d.nearestCode_le

end FactorLabel.Number
