import FactorLabel.Number.Decimal
import FactorLabel.Proofs.Number.Packed
import FactorLabel.Proofs.Number.Readback

/-!
# The code of a double

A double is put together from its sign bit and its code, and it is finite if its code is below
that of infinity. With these, what holds of codes holds of doubles.
-/

namespace FactorLabel.Number

open Float.Model Float.Model.UnpackedFloat

/-- Sign bit and code are all there is to a double. -/
theorem ofCode_code (x : Float) : ofCode (signBit x) (code x) = x := by
  have hlt : x.toBits.toNat < 2 ^ 64 := x.toBits.toNat_lt
  have hsign : signWeight = 2 ^ 63 := rfl
  have hbits : (if signBit x then signWeight + code x else code x) = x.toBits.toNat := by
    rw [code, signBit, hsign]
    split
    · rename_i h
      have := Nat.le_of_ble_eq_true h
      omega
    · rename_i h
      have := mt Nat.ble_eq_true_of_le h
      omega
  rw [ofCode, hbits, UInt64.ofNat_toNat]
  exact Float.ofBits_toBits x

/-- The bit pattern of a double. -/
def bits (x : Float) : Bits := x.toModel.toBits.toBitVec

/-- The largest exponent field is kept for what is not finite. -/
theorem exponentField_of_isFinite {x : Float} (h : x.isFinite = true) :
    (unpackExponent (bits x)).toNat ≠ 2047 := by
  intro he
  have hfinite : (UnpackedFloat.unpack .binary64 (bits x)).isFinite = true := h
  have hones : unpackExponent (bits x) = -1#11 := BitVec.eq_of_toNat_eq he
  rw [unpack_eq, if_pos hones] at hfinite
  split at hfinite
  · exact Bool.false_ne_true hfinite
  · exact Bool.false_ne_true hfinite

theorem code_lt_of_isFinite {x : Float} (h : x.isFinite = true) : code x < infinityCode := by
  have hne := exponentField_of_isFinite h
  have hlt := exponentField_lt (bits x)
  have hbits : x.toBits.toNat = (bits x).toNat := rfl
  have hsign : signWeight = 2 ^ 63 := rfl
  have hinf : infinityCode = 2047 * 2 ^ 52 := rfl
  rw [toNat_exponentField] at hne hlt
  rw [code, hbits, hsign, hinf]
  omega

/-! ## What is not finite -/

theorem isFinite_iff {x : Float} : x.isFinite = true ↔ x.isNaN = false ∧ x.isInf = false := by
  have hstatus : ∀ u : UnpackedFloat, u.isFinite = true ↔ u.isNaN = false ∧ u.isInf = false := by
    intro u
    cases u <;> simp [UnpackedFloat.isFinite, UnpackedFloat.isNaN, UnpackedFloat.isInf]
  exact hstatus x.toModel.unpack

theorem isNaN_of_isInf {x : Float} (h : x.isInf = true) : x.isNaN = false := by
  have hstatus : ∀ u : UnpackedFloat, u.isInf = true → u.isNaN = false := by
    intro u
    cases u <;> simp [UnpackedFloat.isNaN, UnpackedFloat.isInf]
  exact hstatus x.toModel.unpack h

theorem plainText_of_isFinite {x : Float} (h : x.isFinite = true) :
    plainText x = String.ofList (plainDigits x) := by
  obtain ⟨hnan, hinf⟩ := isFinite_iff.mp h
  rw [plainText, hnan, hinf]
  rfl

theorem plainText_of_isInf {x : Float} (h : x.isInf = true) :
    plainText x = String.ofList (signText x) ++ "inf" := by
  rw [plainText, isNaN_of_isInf h, h]
  rfl

end FactorLabel.Number
