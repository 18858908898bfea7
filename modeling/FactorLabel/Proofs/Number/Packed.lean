import FactorLabel.Number.Binary
import Mathlib

/-!
# The bit pattern of a double

Arithmetic on doubles unpacks its arguments into sign, mantissa and exponent, computes there,
and packs the result again. What arithmetic then finds in a pattern is said here field by field:
a finite pattern unpacks to a mantissa and an exponent as they are stored, and negation touches
the sign and nothing else.

The fields are read as natural numbers, since that is how `code` and `signBit` read them.
-/

namespace FactorLabel.Number

open Float.Model Float.Model.UnpackedFloat

/-- The sixty-four bits of a double. -/
abbrev Bits := BitVec Format.binary64.numBits

/-! ## The fields of a bit pattern -/

theorem toNat_exponentField (b : Bits) :
    (unpackExponent b).toNat = b.toNat / 2 ^ 52 % 2 ^ 11 := by
  simp [unpackExponent, Nat.shiftRight_eq_div_pow]

theorem mantissaField_lt (b : Bits) : (unpackMantissa b).toNat < 2 ^ 52 := (unpackMantissa b).isLt

theorem exponentField_lt (b : Bits) : (unpackExponent b).toNat < 2 ^ 11 := (unpackExponent b).isLt

/-! ## What a pattern unpacks to -/

/-- A mantissa and an exponent as they are stored: the mantissa fills its fifty-three bits, or
the exponent is the least one. -/
structure OnGrid (m : Nat) (e : Int) : Prop where
  pos : 0 < m
  lt : m < 2 ^ 53
  full : 2 ^ 52 ≤ m ∨ e = -1074
  lo : -1074 ≤ e
  hi : e ≤ 971

theorem toNat_withImplicitBit (v : BitVec 52) : (1#1 ++ v).toNat = 2 ^ 52 + v.toNat := by
  rw [BitVec.toNat_append, ← Nat.shiftLeft_add_eq_or_of_lt v.isLt]
  rfl

theorem unpack_eq (b : Bits) : UnpackedFloat.unpack .binary64 b =
    if unpackExponent b = -1#11 then
      if unpackMantissa b = 0#52 then .infinity (Sign.ofBitVec (unpackSign b)) else .notANumber
    else if unpackExponent b = 0#11 then
      if h : unpackMantissa b = 0#52 then .zero (Sign.ofBitVec (unpackSign b))
      else .finite (Sign.ofBitVec (unpackSign b)) (unpackMantissa b).toNat (-1074)
        (by simpa [BitVec.toNat_pos, BitVec.pos_iff_ne_zero])
    else .finite (Sign.ofBitVec (unpackSign b)) (2 ^ 52 + (unpackMantissa b).toNat)
      ((unpackExponent b).toNat - 1075) (by omega) := by
  have hbias : Format.binary64.exponentBias = 1023 := rfl
  rw [UnpackedFloat.unpack]
  simp only [toNat_withImplicitBit, hbias]
  split
  · rfl
  · split
    · rename_i h0
      simp only [h0]
      rfl
    · congr 1

/-- Whatever is finite unpacks to a mantissa and an exponent as they are stored. -/
theorem onGrid_of_unpack {b : Bits} {s : Sign} {m : Nat} {e : Int} {hm : 0 < m}
    (h : UnpackedFloat.unpack .binary64 b = .finite s m e hm) : OnGrid m e := by
  have hexp := exponentField_lt b
  have hman := mantissaField_lt b
  rw [unpack_eq] at h
  split at h
  · split at h <;> cases h
  · rename_i hinf
    split at h
    · split at h
      · cases h
      · cases h
        -- no implicit bit, and the least exponent
        exact ⟨hm, by omega, .inr rfl, by omega, by omega⟩
    · rename_i h0
      -- the implicit bit fills the mantissa
      have hne : (unpackExponent b).toNat ≠ 0 := fun h => h0 (BitVec.eq_of_toNat_eq h)
      have hmax : (unpackExponent b).toNat ≠ 2047 := fun h => hinf (BitVec.eq_of_toNat_eq h)
      cases h
      exact ⟨hm, by omega, .inl (by omega), by omega, by omega⟩

/-! ## Negation only touches the sign -/

theorem unpack_packComponents_neg (s : Sign) (e : BitVec 11) (m : BitVec 52) :
    UnpackedFloat.unpack .binary64 (packComponents .binary64 (-s) e m)
      = (UnpackedFloat.unpack .binary64 (packComponents .binary64 s e m)).neg := by
  rw [unpack_eq, unpack_eq]
  simp only [unpackSign_packComponents, unpackExponent_packComponents,
    unpackMantissa_packComponents, Sign.ofBitVec_toBitVec]
  split
  · split <;> rfl
  · split
    · split <;> rfl
    · rfl

theorem pack_neg_fields (u : UnpackedFloat) :
    u = .notANumber ∨ ∃ s e m, UnpackedFloat.pack .binary64 u = packComponents .binary64 s e m
      ∧ UnpackedFloat.pack .binary64 u.neg = packComponents .binary64 (-s) e m := by
  cases u with
  | notANumber => exact .inl rfl
  | infinity s => exact .inr ⟨s, _, _, rfl, rfl⟩
  | zero s => exact .inr ⟨s, _, _, rfl, rfl⟩
  | finite s m e hm =>
      refine .inr ?_
      simp only [UnpackedFloat.neg, UnpackedFloat.pack]
      split
      · exact ⟨s, _, _, rfl, rfl⟩
      · split
        · exact ⟨s, _, _, rfl, rfl⟩
        · exact ⟨s, _, _, rfl, rfl⟩

/-- Negation commutes with the rounding that packing may still do. -/
theorem unpack_pack_neg (u : UnpackedFloat) :
    UnpackedFloat.unpack .binary64 (UnpackedFloat.pack .binary64 u.neg)
      = (UnpackedFloat.unpack .binary64 (UnpackedFloat.pack .binary64 u)).neg := by
  rcases pack_neg_fields u with rfl | ⟨s, e, m, hu, hneg⟩
  · rfl
  · rw [hu, hneg, unpack_packComponents_neg]

end FactorLabel.Number
