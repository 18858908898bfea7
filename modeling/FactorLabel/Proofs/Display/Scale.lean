import FactorLabel.Display.Factor
import FactorLabel.Proofs.Number.Rounding

/-!
# The power of ten a factor is scaled by

The power is computed by repeated squaring, and every product is rounded. Up to ten to the power
twenty-two nothing is lost. Beyond that the power is hardly too small: each factor ten has lost a
part in two to the fifty-third at most. From ten to the power three hundred and nine on it is
infinite.
-/

namespace FactorLabel.Display

open Number Float.Model
open Number.Double (unpacked packed mul_eq form_pos unpacked_of_isFinite isFinite_ofCode
  isFinite_ofCode_infinity code_ofCode signBit_ofCode ofCode_infinity mul_eq_ofCode)

/-- What rounding leaves at least of a number from one on. -/
def kept : ℚ := 1 - 1 / 2 ^ 53

theorem kept_pos : 0 < kept := by
  rw [kept]
  norm_num

theorem kept_le_one : kept ≤ 1 := by
  rw [kept]
  norm_num

/-- The double is positive and at least `b`, or it is infinite. -/
def AtLeast (b : ℚ) (x : Float) : Prop :=
  ∃ c, x = ofCode false c ∧ (c = infinityCode ∨ c < infinityCode ∧ b ≤ magnitude c)

theorem pos_of_le_magnitude {b : ℚ} {c : Nat} (hb : 1 ≤ b) (h : b ≤ magnitude c) : 0 < c := by
  rcases Nat.eq_zero_or_pos c with rfl | hc
  · rw [magnitude_zero] at h
    linarith
  · exact hc

theorem unpacked_infinity : unpacked (ofCode false infinityCode) = .infinity .positive := rfl

theorem unpacked_ofCode {c : Nat} (hc : c < infinityCode) (hpos : 0 < c) :
    unpacked (ofCode false c)
      = .finite .positive (significand c) (unitExponent c) (significand_pos hpos) := by
  rw [unpacked_of_isFinite (isFinite_ofCode false hc), code_ofCode false hc,
    signBit_ofCode false hc, form_pos _ hpos]
  rfl

theorem infinity_eq_packed :
    ofCode false infinityCode = packed (.infinity .positive) := ofCode_infinity false

/-! ## One product -/

theorem AtLeast.mul {b b' : ℚ} {x y : Float} (hb : 1 ≤ b) (hb' : 1 ≤ b') (hx : AtLeast b x)
    (hy : AtLeast b' y) : AtLeast (b * b' * kept) (x * y) := by
  obtain ⟨c, rfl, hc⟩ := hx
  obtain ⟨d, rfl, hd⟩ := hy
  rcases hc with rfl | ⟨hc, hcb⟩
  · refine ⟨infinityCode, ?_, .inl rfl⟩
    rcases hd with rfl | ⟨hd, hdb⟩
    · rw [mul_eq, unpacked_infinity, infinity_eq_packed]
      rfl
    · rw [mul_eq, unpacked_infinity, unpacked_ofCode hd (pos_of_le_magnitude hb' hdb),
        infinity_eq_packed]
      rfl
  · rcases hd with rfl | ⟨hd, hdb⟩
    · refine ⟨infinityCode, ?_, .inl rfl⟩
      rw [mul_eq, unpacked_infinity, unpacked_ofCode hc (pos_of_le_magnitude hb hcb),
        infinity_eq_packed]
      rfl
    · have hprod : b * b' ≤ magnitude c * magnitude d :=
        mul_le_mul hcb hdb (by linarith) (magnitude_nonneg c)
      have hone : 1 ≤ magnitude c * magnitude d :=
        (one_le_mul_of_one_le_of_one_le hb hb').trans hprod
      have hrounded := mul_eq_ofCode (isFinite_ofCode false hc) (isFinite_ofCode false hd)
      rw [signBit_ofCode false hc, signBit_ofCode false hd, code_ofCode false hc,
        code_ofCode false hd] at hrounded
      refine ⟨_, hrounded, ?_⟩
      rcases (codeNear_le (magnitude c * magnitude d)).eq_or_lt with h | h
      · exact .inl h
      · refine .inr ⟨h, ?_⟩
        have hnear := abs_le.mp (abs_magnitude_codeNear_sub (by linarith) h)
        have hhalf := half_unit_le_of_one_le hone
        calc b * b' * kept ≤ magnitude c * magnitude d * kept := by
              gcongr
              exact kept_pos.le
          _ = magnitude c * magnitude d - magnitude c * magnitude d / 2 ^ 53 := by
              rw [kept]
              ring
          _ ≤ magnitude (codeNear (magnitude c * magnitude d)) := by linarith [hnear.1]

/-! ## The loop -/

/-- **What repeated squaring keeps.** Every factor of the power is rounded away at most once. -/
theorem AtLeast.powerBySquaring {fuel n : Nat} {b d : ℚ} {r a : Float} (hn : n < 2 ^ fuel)
    (hb : 1 ≤ b) (hd : 1 ≤ d) (hr : AtLeast b r) (ha : AtLeast (d / kept) a) :
    AtLeast (b * d ^ n) (powerBySquaring fuel r a n) := by
  have hkept := kept_pos
  induction fuel generalizing n b d r a with
  | zero =>
      obtain rfl : n = 0 := by omega
      rw [pow_zero, mul_one]
      exact hr
  | succ fuel ih =>
      have hquot : 1 ≤ d / kept := by
        rw [one_le_div hkept]
        linarith [kept_le_one]
      have hsplit : b * d ^ n = b * d ^ (n % 2) * (d * d) ^ (n / 2) := by
        rw [mul_assoc, ← pow_two, ← pow_mul, ← pow_add, Nat.mod_add_div]
      -- the lowest bit of the exponent
      have hr' : AtLeast (b * d ^ (n % 2)) (if n % 2 = 1 then r * a else r) := by
        rcases Nat.mod_two_eq_zero_or_one n with hbit | hbit
        · rw [hbit, if_neg (by decide), pow_zero, mul_one]
          exact hr
        · rw [hbit, if_pos rfl, pow_one]
          have h := hr.mul hb hquot ha
          rw [mul_assoc, div_mul_cancel₀ _ hkept.ne'] at h
          exact h
      simp only [Display.powerBySquaring]
      split
      · rename_i hzero
        rw [hsplit, hzero, pow_zero, mul_one]
        exact hr'
      · -- and the other bits, with the square
        have ha' : AtLeast (d * d / kept) (a * a) := by
          have h := ha.mul hquot hquot ha
          have heq : d / kept * (d / kept) * kept = d * d / kept := by
            field_simp
          rw [heq] at h
          exact h
        rw [hsplit]
        refine ih (by omega) ?_ (one_le_mul_of_one_le_of_one_le hd hd) hr' ha'
        exact one_le_mul_of_one_le_of_one_le hb (one_le_pow₀ hd)

theorem atLeast_of_digits {n : Nat} {x : Float} (hx : x = ofCode false (code x))
    (hfin : code x < infinityCode) (h : numerator (code x) = n * denominator (code x)) :
    AtLeast n x :=
  ⟨_, hx, .inr ⟨hfin, (magnitude_eq_natCast h).ge⟩⟩

theorem atLeast_powerOfTen (p : Nat) : AtLeast ((10 * kept) ^ p) (powerOfTen p) := by
  have hone : AtLeast (1 : Nat) 1 :=
    atLeast_of_digits (by decide +kernel) (by decide +kernel) (by decide +kernel)
  have hten : AtLeast (10 : Nat) 10 :=
    atLeast_of_digits (by decide +kernel) (by decide +kernel) (by decide +kernel)
  have hbase : (10 : ℚ) * kept / kept = (10 : Nat) := mul_div_cancel_right₀ _ kept_pos.ne'
  have hge : 1 ≤ 10 * kept := by
    rw [kept]
    norm_num
  have h := AtLeast.powerBySquaring (n := p) Nat.lt_log2_self le_rfl hge
    (by rw [Nat.cast_one] at hone; exact hone) (hbase ▸ hten)
  rw [one_mul] at h
  exact h

theorem nine_tenths_le {p : Nat} (hp : p ≤ 309) : 9 / 10 * 10 ^ p ≤ (10 * kept) ^ p := by
  have hbernoulli := one_add_mul_le_pow (a := -(1 / 2 ^ 53 : ℚ)) (by norm_num) p
  have hp' : (p : ℚ) ≤ 309 := by exact_mod_cast hp
  rw [← sub_eq_add_neg, ← kept] at hbernoulli
  have hkept : 9 / 10 ≤ kept ^ p := le_trans (by linarith) hbernoulli
  rw [mul_pow, mul_comm]
  gcongr

theorem largest_le : (2 : ℚ) ^ (1024 : ℤ) ≤ 9 / 10 * 10 ^ 309 := by
  have hdigits : 10 * 2 ^ 1024 ≤ 9 * 10 ^ 309 := by decide +kernel
  have hcast : (10 : ℚ) * 2 ^ (1024 : ℤ) ≤ 9 * 10 ^ 309 := by exact_mod_cast hdigits
  -- the powers are named, so that they are not worked out
  generalize (2 : ℚ) ^ (1024 : ℤ) = a at hcast ⊢
  generalize (10 : ℚ) ^ 309 = b at hcast ⊢
  linarith

/-- **A finite power of ten is not too small.** Beyond the three hundred and eighth it would have
to be, so from there on the power is infinite. -/
theorem powerOfTen_of_isFinite {p : Nat} (h : (powerOfTen p).isFinite = true) :
    p ≤ 308 ∧ signBit (powerOfTen p) = false
      ∧ 9 / 10 * 10 ^ p ≤ magnitude (code (powerOfTen p)) := by
  obtain ⟨c, hx, rfl | ⟨hc, hle⟩⟩ := atLeast_powerOfTen p
  · rw [hx, isFinite_ofCode_infinity] at h
    exact absurd h Bool.false_ne_true
  · have hp : p ≤ 308 := by
      by_contra hlarge
      have hpow : (10 * kept) ^ 309 ≤ (10 * kept) ^ p := by
        refine pow_le_pow_right₀ ?_ (by omega)
        rw [kept]
        norm_num
      have hmag := (nine_tenths_le (Nat.le_refl 309)).trans (hpow.trans hle)
      exact absurd (largest_le.trans hmag) (magnitude_lt hc).not_ge
    rw [hx, code_ofCode false hc, signBit_ofCode false hc]
    exact ⟨hp, rfl, (nine_tenths_le (by omega)).trans hle⟩

/-- **Small powers of ten are exact.** -/
theorem powerOfTen_of_le {p : Nat} (hp : p ≤ 22) : (powerOfTen p).isFinite = true
    ∧ magnitude (code (powerOfTen p)) = 10 ^ p := by
  have hall : ∀ p ≤ 22, (powerOfTen p).isFinite = true
      ∧ numerator (code (powerOfTen p)) = 10 ^ p * denominator (code (powerOfTen p)) := by
    decide +kernel
  obtain ⟨hfin, hdigits⟩ := hall p hp
  have hmag := magnitude_eq_natCast hdigits
  rw [Nat.cast_pow, Nat.cast_ofNat] at hmag
  exact ⟨hfin, hmag⟩

theorem isFinite_packed_infinity (s : UnpackedFloat.Sign) :
    (packed (.infinity s)).isFinite = false := by
  cases s <;> decide +kernel

theorem isFinite_packed_notANumber : (packed .notANumber).isFinite = false := by decide +kernel

/-- What is scaled by an infinite power is not finite. -/
theorem isFinite_of_mul_powerOfTen {x : Float} {p : Nat}
    (h : (x * powerOfTen p).isFinite = true) : (powerOfTen p).isFinite = true := by
  obtain ⟨c, hx, rfl | ⟨hc, -⟩⟩ := atLeast_powerOfTen p
  · rw [hx, mul_eq, unpacked_infinity] at h
    cases hu : unpacked x <;> rw [hu] at h
    case notANumber | zero =>
      exact absurd (h.symm.trans isFinite_packed_notANumber) Bool.false_ne_true.symm
    case infinity | finite =>
      exact absurd (h.symm.trans (isFinite_packed_infinity _)) Bool.false_ne_true.symm
  · rw [hx]
    exact isFinite_ofCode false hc

end FactorLabel.Display
