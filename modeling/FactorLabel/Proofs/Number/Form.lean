import FactorLabel.Proofs.Number.Code
import FactorLabel.Proofs.Number.Status

/-!
# A double and its sign and code

A finite double unpacks to its sign, the significand of its code and the unit of its code. So what
the arithmetic computes with is what the code stands for. The other way round, a sign and a finite
code make a double with that sign and that code.
-/

namespace FactorLabel.Number.Double

open Float.Model Float.Model.UnpackedFloat

/-- The sign that a sign bit stands for. -/
def signOf (negative : Bool) : Sign := if negative then .negative else .positive

/-- What the double of a sign and a finite code unpacks to. -/
def form (negative : Bool) (c : Nat) : UnpackedFloat :=
  if h : 0 < c then .finite (signOf negative) (significand c) (unitExponent c) (significand_pos h)
  else .zero (signOf negative)

theorem finite_congr {s s' : Sign} {m m' : Nat} {e e' : Int} {hm : 0 < m} {hm' : 0 < m'}
    (hs : s = s') (hmantissa : m = m') (he : e = e') :
    UnpackedFloat.finite s m e hm = .finite s' m' e' hm' := by
  subst hs hmantissa he
  rfl

theorem form_zero (negative : Bool) : form negative 0 = .zero (signOf negative) := rfl

theorem form_pos (negative : Bool) {c : Nat} (hc : 0 < c) :
    form negative c
      = .finite (signOf negative) (significand c) (unitExponent c) (significand_pos hc) :=
  dif_pos hc

/-! ## From the bits -/

theorem toNat_signField (b : Bits) : (unpackSign b).toNat = b.toNat / 2 ^ 63 := by
  have hlt : b.toNat < 2 ^ 64 := b.isLt
  have hfield : (unpackSign b).toNat = b.toNat / 2 ^ 63 % 2 := by
    simp [unpackSign, Nat.shiftRight_eq_div_pow]
  omega

theorem ofBitVec_unpackSign (b : Bits) :
    Sign.ofBitVec (unpackSign b) = signOf (Nat.ble signWeight b.toNat) := by
  have hfield := toNat_signField b
  have hlt : b.toNat < 2 ^ 64 := b.isLt
  have hsign : signWeight = 2 ^ 63 := rfl
  cases hneg : Nat.ble signWeight b.toNat with
  | true =>
      have hle := Nat.le_of_ble_eq_true hneg
      rw [Sign.ofBitVec, if_neg]
      · rfl
      · intro h
        rw [h, BitVec.toNat_ofNat] at hfield
        omega
  | false =>
      have hle := mt Nat.ble_eq_true_of_le (Bool.eq_false_iff.mp hneg)
      rw [Sign.ofBitVec, if_pos]
      · rfl
      · refine BitVec.eq_of_toNat_eq ?_
        rw [hfield, BitVec.toNat_ofNat]
        omega

/-- Finite patterns unpack to the significand and the unit of their code. -/
theorem unpack_of_code {b : Bits} (h : b.toNat % signWeight < infinityCode) :
    UnpackedFloat.unpack .binary64 b
      = form (Nat.ble signWeight b.toNat) (b.toNat % signWeight) := by
  have hexp := toNat_exponentField b
  have hman := toNat_mantissaField b
  have hlt : b.toNat < 2 ^ 64 := b.isLt
  have hsign : signWeight = 2 ^ 63 := rfl
  have hinf : infinityCode = 2047 * 2 ^ 52 := rfl
  rw [unpack_eq, ofBitVec_unpackSign, form]
  generalize Nat.ble signWeight b.toNat = negative
  rw [hsign] at h ⊢
  rw [hinf] at h
  rw [if_neg]
  · by_cases hzero : unpackExponent b = 0#11
    · -- the lowest binade, where the mantissa is the code
      have hzero' : (unpackExponent b).toNat = 0 := by
        rw [hzero]
        rfl
      rw [if_pos hzero]
      by_cases hmantissa : unpackMantissa b = 0#52
      · have hmantissa' : (unpackMantissa b).toNat = 0 := by
          rw [hmantissa]
          rfl
        rw [dif_pos hmantissa, dif_neg (by omega)]
      · have hmantissa' : (unpackMantissa b).toNat ≠ 0 := fun h =>
          hmantissa (BitVec.eq_of_toNat_eq h)
        obtain ⟨hs, hu⟩ := parts_of_lt (c := b.toNat % 2 ^ 63) (by rw [binade_eq]; omega)
        rw [dif_neg hmantissa, dif_pos (by omega)]
        exact finite_congr rfl (by omega) hu.symm
    · have hzero' : (unpackExponent b).toNat ≠ 0 := fun h => hzero (BitVec.eq_of_toNat_eq h)
      obtain ⟨hs, hu⟩ := parts_of_le (c := b.toNat % 2 ^ 63) (by rw [binade_eq]; omega)
      rw [binade_eq] at hs hu
      rw [if_neg hzero, dif_pos (by omega)]
      exact finite_congr rfl (by omega) (by omega)
  · intro hones
    rw [hones] at hexp
    have hmax : (-1#11 : BitVec 11).toNat = 2047 := rfl
    omega

theorem unpacked_of_isFinite {x : Float} (hx : x.isFinite = true) :
    unpacked x = form (signBit x) (code x) := unpack_of_code (code_lt_of_isFinite hx)

/-! ## To the bits -/

/-- The bits of the double of a sign and a code. -/
theorem toNat_codeBits (negative : Bool) {c : Nat} (hc : c ≤ infinityCode) :
    (UInt64.ofNat (if negative then signWeight + c else c)).toBitVec.toNat
      = if negative then signWeight + c else c := by
  have hsign : signWeight = 2 ^ 63 := rfl
  have hinf : infinityCode = 2047 * 2 ^ 52 := rfl
  show (if negative then signWeight + c else c) % 2 ^ 64 = _
  rw [hinf] at hc
  refine Nat.mod_eq_of_lt ?_
  rw [hsign]
  split <;> omega

theorem code_and_sign (negative : Bool) {c : Nat} (hc : c ≤ infinityCode) :
    (if negative then signWeight + c else c) % signWeight = c
      ∧ Nat.ble signWeight (if negative then signWeight + c else c) = negative := by
  have hsign : signWeight = 2 ^ 63 := rfl
  have hinf : infinityCode = 2047 * 2 ^ 52 := rfl
  rw [hinf] at hc
  rw [hsign]
  cases negative with
  | true => exact ⟨by rw [if_pos rfl]; omega, Nat.ble_eq_true_of_le (by rw [if_pos rfl]; omega)⟩
  | false =>
      refine ⟨by rw [if_neg Bool.false_ne_true]; omega, ?_⟩
      refine Bool.eq_false_iff.mpr fun h => ?_
      have := Nat.le_of_ble_eq_true h
      rw [if_neg Bool.false_ne_true] at this
      omega

theorem ofCode_eq_packed (negative : Bool) {c : Nat} (hc : c < infinityCode) :
    ofCode negative c = packed (form negative c) := by
  have hbits := toNat_codeBits negative hc.le
  obtain ⟨hcode, hneg⟩ := code_and_sign negative hc.le
  have hunpack := unpack_of_code
    (b := (UInt64.ofNat (if negative then signWeight + c else c)).toBitVec)
    (by rw [hbits, hcode]; exact hc)
  rw [hbits, hcode, hneg] at hunpack
  show packed (UnpackedFloat.unpack .binary64 _) = _
  rw [hunpack]

theorem packed_zero (negative : Bool) : packed (.zero (signOf negative)) = ofCode negative 0 :=
  (ofCode_eq_packed negative (show 0 < infinityCode by decide)).symm

theorem ofCode_infinity (negative : Bool) :
    ofCode negative infinityCode = packed (.infinity (signOf negative)) := by
  cases negative <;> decide +kernel

/-- No finite code is changed when the double is made canonical. -/
theorem toNat_toBits_ofCode (negative : Bool) {c : Nat} (hc : c < infinityCode) :
    (ofCode negative c).toBits.toNat = if negative then signWeight + c else c := by
  obtain ⟨b, hb⟩ : ∃ b : Bits,
      b = (UInt64.ofNat (if negative then signWeight + c else c)).toBitVec := ⟨_, rfl⟩
  have hbits : b.toNat = if negative then signWeight + c else c := by
    rw [hb]
    exact toNat_codeBits negative hc.le
  have hcode := (code_and_sign negative hc.le).1
  have hsign : signWeight = 2 ^ 63 := rfl
  have hinf : infinityCode = 2047 * 2 ^ 52 := rfl
  have hnan : isNaNBits b = false := by
    refine decide_eq_false fun h => ?_
    have hexp := toNat_exponentField b
    have hones : (-1#11 : BitVec 11).toNat = 2047 := rfl
    rw [h.1, hones, hbits] at hexp
    rw [hinf] at hc
    rw [hsign] at hcode hexp
    omega
  have hpack := pack_unpack b
  rw [hnan, if_neg Bool.false_ne_true, hb] at hpack
  rw [← hbits, hb]
  exact congrArg BitVec.toNat hpack

theorem code_ofCode (negative : Bool) {c : Nat} (hc : c < infinityCode) :
    code (ofCode negative c) = c := by
  rw [code, toNat_toBits_ofCode negative hc, (code_and_sign negative hc.le).1]

theorem signBit_ofCode (negative : Bool) {c : Nat} (hc : c < infinityCode) :
    signBit (ofCode negative c) = negative := by
  rw [signBit, toNat_toBits_ofCode negative hc, (code_and_sign negative hc.le).2]

theorem isFinite_form (negative : Bool) (c : Nat) : (form negative c).isFinite = true := by
  rw [form]
  split <;> rfl

theorem isFinite_ofCode (negative : Bool) {c : Nat} (hc : c < infinityCode) :
    (ofCode negative c).isFinite = true := by
  have hbits := toNat_toBits_ofCode negative hc
  have hcode := (code_and_sign negative hc.le).1
  have hunpack := unpack_of_code (b := bits (ofCode negative c))
    (by rw [show (bits (ofCode negative c)).toNat = _ from hbits, hcode]; exact hc)
  show (UnpackedFloat.unpack .binary64 (bits (ofCode negative c))).isFinite = true
  rw [hunpack]
  exact isFinite_form _ _

theorem isFinite_ofCode_infinity (negative : Bool) :
    (ofCode negative infinityCode).isFinite = false := by
  cases negative <;> decide +kernel

end FactorLabel.Number.Double
