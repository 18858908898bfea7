import FactorLabel.Proofs.Number.Form
import FactorLabel.Proofs.Number.Nearest

/-!
# Products and quotients are rounded once

The product of two finite doubles is the double nearest to the product of the numbers that they
stand for, and the quotient is the double nearest to the quotient.

The arithmetic gets there in steps: it takes a mantissa and says with two bits how much was left
off, shifts to the unit of the result, rounds, shifts again where rounding has carried into a new
bit, and packs. What the mantissa and its two bits stand for is kept by every shift, so rounding
sees the exact number.
-/

namespace FactorLabel.Number

theorem codeNear_le (q : ℚ) : codeNear q ≤ infinityCode := nearestCode_le _ _

namespace Double

open Float.Model Float.Model.UnpackedFloat

/-! ## What a mantissa and its two bits stand for -/

/-- The extended mantissa stands for `q`: the round bit is worth a half, and the sticky bit says
that something is left over. -/
structure Represents (em : ExtendedMantissa) (q : ℚ) : Prop where
  floor : em.mantissa ≤ q
  lt : q < em.mantissa + 1
  round : em.roundBit = true ↔ em.mantissa + 1 / 2 ≤ q
  sticky : em.stickyBit = true ↔ q ≠ em.mantissa ∧ q ≠ em.mantissa + 1 / 2

theorem represents_add (m : Nat) {round sticky : Bool} {rest : ℚ} (hnonneg : 0 ≤ rest)
    (hlt : rest < 1) (hround : round = true ↔ 1 / 2 ≤ rest)
    (hsticky : sticky = true ↔ rest ≠ 0 ∧ rest ≠ 1 / 2) :
    Represents ⟨m, round, sticky⟩ (m + rest) where
  floor := le_add_of_nonneg_right hnonneg
  lt := (add_lt_add_iff_left _).mpr hlt
  round := hround.trans (add_le_add_iff_left _).symm
  sticky := by
    rw [hsticky, Ne, Ne, Ne, Ne, add_eq_left, add_right_inj]

theorem represents_exact (m : Nat) : Represents (.ofMantissaAndAccuracy m .exact) m := by
  have h : Represents ⟨m, false, false⟩ (m + 0) := represents_add m le_rfl one_pos
    (iff_of_false Bool.false_ne_true (by norm_num))
    (iff_of_false Bool.false_ne_true fun h => h.1 rfl)
  rw [add_zero] at h
  exact h

/-- The rest of a division says how much was left off. -/
theorem represents_quotient (num : Nat) {den : Nat} (hden : 0 < den) :
    Represents (.ofMantissaAndAccuracy (num / den) (accuracyOfFraction (num % den) den))
      (num / den) := by
  have hless := rest_lt_half_iff (num % den) hden
  have hhalf := rest_eq_half_iff (num % den) hden
  have hone := rest_lt_one num hden
  have hpos : 0 < num % den → (0 : ℚ) < (num % den : Nat) / den := fun _ => by positivity
  rw [div_eq_add_rest num hden, accuracyOfFraction]
  generalize num / den = q
  generalize num % den = r at *
  rcases Nat.eq_zero_or_pos r with rfl | hr
  · rw [if_pos rfl, Nat.cast_zero, zero_div, add_zero]
    exact represents_exact q
  · have hrest := hpos hr
    generalize (r : ℚ) / den = rest at *
    rw [if_neg hr.ne']
    rcases Nat.lt_trichotomy (2 * r) den with h | h | h
    · have hlt := hless.mpr h
      rw [Nat.compare_eq_lt.mpr h]
      exact represents_add q hrest.le hone (iff_of_false Bool.false_ne_true hlt.not_ge)
        (iff_of_true rfl ⟨hrest.ne', hlt.ne⟩)
    · have heq := hhalf.mpr h
      rw [Nat.compare_eq_eq.mpr h]
      exact represents_add q hrest.le hone (iff_of_true rfl heq.ge)
        (iff_of_false Bool.false_ne_true fun hne => hne.2 heq)
    · have hne : rest ≠ 1 / 2 := fun heq => h.ne' (hhalf.mp heq)
      have hge : 1 / 2 ≤ rest := not_lt.mp fun hlt => h.not_gt (hless.mp hlt)
      rw [Nat.compare_eq_gt.mpr h]
      exact represents_add q hrest.le hone (iff_of_true rfl hge)
        (iff_of_true rfl ⟨hrest.ne', hne⟩)

namespace Represents

variable {em : ExtendedMantissa} {q : ℚ}

/-- One of the bits is set if anything was left off. -/
theorem bits_iff (h : Represents em q) :
    (em.roundBit || em.stickyBit) = true ↔ q ≠ em.mantissa := by
  rw [Bool.or_eq_true, h.round, h.sticky]
  constructor
  · rintro (hle | ⟨hne, -⟩)
    · intro heq
      linarith
    · exact hne
  · intro hne
    by_cases hle : em.mantissa + 1 / 2 ≤ q
    · exact .inl hle
    · exact .inr ⟨hne, fun heq => hle heq.ge⟩

/-- Shifting right by one halves the number, and the bits lose nothing that rounding needs. -/
theorem shiftRightOne (h : Represents em q) : Represents em.shiftRightOne (q / 2) := by
  have hfloor := h.floor
  have hlt := h.lt
  have hmantissa : (em.mantissa : ℚ) = 2 * (em.mantissa / 2 : Nat) + (em.mantissa % 2 : Nat) := by
    exact_mod_cast (Nat.div_add_mod em.mantissa 2).symm
  have hsplit : q / 2
      = (em.mantissa / 2 : Nat) + ((em.mantissa % 2 : Nat) + (q - em.mantissa)) / 2 := by
    linarith
  rw [hsplit]
  -- the bit that is shifted out is worth a half, and what was left off is worth less than that
  rcases Nat.mod_two_eq_zero_or_one em.mantissa with hbit | hbit
  · rw [hbit, Nat.cast_zero, zero_add]
    refine represents_add _ (by linarith) (by linarith)
      (iff_of_false (by rw [hbit]; exact Bool.false_ne_true) (by linarith)) (h.bits_iff.trans ?_)
    constructor
    · intro hne
      exact ⟨fun heq => hne (by linarith), fun heq => by linarith⟩
    · rintro ⟨hne, -⟩ heq
      exact hne (by linarith)
  · rw [hbit, Nat.cast_one]
    refine represents_add _ (by linarith) (by linarith)
      (iff_of_true (by rw [hbit]; rfl) (by linarith)) (h.bits_iff.trans ?_)
    constructor
    · intro hne
      exact ⟨fun heq => by linarith, fun heq => hne (by linarith)⟩
    · rintro ⟨-, hne⟩ heq
      exact hne (by linarith)

theorem shiftRight (h : Represents em q) (n : Nat) : Represents (em >>> n) (q / 2 ^ n) := by
  show Represents (Nat.repeat ExtendedMantissa.shiftRightOne n em) (q / 2 ^ n)
  induction n with
  | zero =>
      rw [pow_zero, div_one]
      exact h
  | succ n ih =>
      rw [pow_succ, ← div_div]
      exact ih.shiftRightOne

/-- **Rounding goes to the nearest whole number**, the even one of two. -/
theorem roundedMantissa (h : Represents em q) : RoundsEven q em.roundedMantissa := by
  obtain ⟨m, round, sticky⟩ := em
  have hlt := h.lt
  have hround := h.round
  have hsticky := h.sticky
  simp only at hlt hround hsticky
  cases round with
  | false =>
      have hless := not_le.mp (mt hround.mpr Bool.false_ne_true)
      cases sticky with
      | false =>
          have hne := mt hsticky.mpr Bool.false_ne_true
          refine .of_eq (not_not.mp fun heq => hne ⟨heq, hless.ne⟩)
      | true =>
          have hfloor : (m : ℚ) ≤ q := h.floor
          refine .inl ?_
          show |q - (m : ℤ)| < 1 / 2
          rw [Int.cast_natCast, abs_of_nonneg (by linarith)]
          linarith
  | true =>
      have hge := hround.mp rfl
      cases sticky with
      | false =>
          have hne := mt hsticky.mpr Bool.false_ne_true
          have hhalf : q = m + 1 / 2 := not_not.mp fun heq => hne ⟨fun h => by linarith, heq⟩
          refine .inr ?_
          show |q - ((m + m % 2 : Nat) : ℤ)| = 1 / 2 ∧ Even ((m + m % 2 : Nat) : ℤ)
          refine ⟨?_, by exact_mod_cast Nat.even_iff.mpr (by omega)⟩
          rw [hhalf, Int.cast_natCast, Nat.cast_add, add_sub_add_left_eq_sub]
          rcases Nat.mod_two_eq_zero_or_one m with hbit | hbit <;> rw [hbit] <;> norm_num
      | true =>
          have hne := (hsticky.mp rfl).2
          refine .inl ?_
          show |q - ((m + 1 : Nat) : ℤ)| < 1 / 2
          have hmore := lt_of_le_of_ne hge hne.symm
          rw [Int.cast_natCast, Nat.cast_succ, abs_sub_comm, abs_of_nonneg (by linarith)]
          linarith

end Represents

/-! ## Rounding to a double -/

/-- The unit that the mantissa is shifted to is the unit of the number it stands for. -/
theorem targetExponent_eq {m : Nat} {e : Int} {q : ℚ} (hq : 0 < q) (hlo : m ≤ q / 2 ^ e)
    (hhi : q / 2 ^ e < m + 1) (hexp : e ≤ Format.binary64.targetExponent (totalExponent m e)) :
    Format.binary64.targetExponent (totalExponent m e) = unitNear q := by
  have hpos : (0 : ℚ) < 2 ^ e := by positivity
  have htarget : Format.binary64.targetExponent (totalExponent m e)
      = max ((m.log2 : Int) + 1 + e - 53) (-1074) := rfl
  rw [htarget] at hexp ⊢
  rw [le_div_iff₀ hpos] at hlo
  rw [div_lt_iff₀ hpos] at hhi
  rcases Nat.eq_zero_or_pos m with rfl | hm
  · -- nothing is left of the number but what was left off, and the unit is the smallest
    have hlog : Int.log 2 q < e := by
      refine (Int.lt_zpow_iff_log_lt (b := 2) (by decide) hq).mp ?_
      rw [Nat.cast_zero, zero_add, one_mul] at hhi
      exact_mod_cast hhi
    have hzero : Nat.log2 0 = 0 := Nat.log2_zero
    rw [hzero] at hexp ⊢
    rw [unitNear]
    omega
  · have hupper : (m : ℚ) + 1 ≤ 2 ^ ((m.log2 : Int) + 1) := by
      have h : m + 1 ≤ 2 ^ (m.log2 + 1) := Nat.lt_log2_self
      rw [← Nat.cast_succ m.log2, zpow_natCast]
      exact_mod_cast h
    have hlog : Int.log 2 q = m.log2 + e := by
      refine le_antisymm (Int.lt_add_one_iff.mp ?_) ?_
      · refine (Int.lt_zpow_iff_log_lt (b := 2) (by decide) hq).mp ?_
        calc q < (m + 1) * 2 ^ e := hhi
          _ ≤ 2 ^ ((m.log2 : Int) + 1) * 2 ^ e := by gcongr
          _ = ((2 : Nat) : ℚ) ^ ((m.log2 : Int) + e + 1) := by
            rw [← zpow_add₀ two_ne_zero, Nat.cast_ofNat]
            congr 1
            omega
      · refine (Int.zpow_le_iff_le_log (b := 2) (by decide) hq).mp ?_
        calc ((2 : Nat) : ℚ) ^ ((m.log2 : Int) + e) = 2 ^ (m.log2 : Int) * 2 ^ e := by
              rw [Nat.cast_ofNat, zpow_add₀ two_ne_zero]
          _ ≤ m * 2 ^ e := by
            gcongr
            exact (log2_bounds hm).1
          _ ≤ q := hlo
    rw [unitNear, hlog]
    omega

/-- A full count of units is packed into its code, or into infinity where the unit is too large. -/
theorem packed_units (negative : Bool) {u : Int} {m : Nat} (hm : 0 < m) (hu : -1074 ≤ u)
    (hlt : m < 2 ^ 53) (hfull : 2 ^ 52 ≤ m ∨ u = -1074) :
    packed (.finite (signOf negative) m u hm)
      = ofCode negative (min ((u + 1074).toNat * binade + m) infinityCode) := by
  have hinf : infinityCode = 2047 * 2 ^ 52 := rfl
  obtain ⟨hs, he⟩ := parts_of_units hu hlt hfull
  rcases le_or_gt u 971 with hle | hgt
  · have hcode : (u + 1074).toNat * binade + m < infinityCode := by
      rw [binade_eq]
      omega
    rw [Nat.min_eq_left hcode.le, ofCode_eq_packed negative hcode, form,
      dif_pos (Nat.lt_of_lt_of_le hm (Nat.le_add_left _ _))]
    exact congrArg packed (finite_congr rfl hs.symm he.symm)
  · have hcode : infinityCode ≤ (u + 1074).toNat * binade + m := by
      rw [binade_eq]
      omega
    have hpack : UnpackedFloat.pack .binary64 (.finite (signOf negative) m u hm)
        = UnpackedFloat.pack .binary64 (.infinity (signOf negative)) := by
      have hbias : Format.binary64.exponentBias = 1023 := rfl
      simp only [UnpackedFloat.pack, hbias]
      exact if_pos (by omega)
    rw [Nat.min_eq_right hcode, ofCode_infinity]
    exact Float.toBits_inj.mp (congrArg UInt64.ofBitVec hpack)

/-- A mantissa that is not too long is not shifted. -/
theorem shiftToTargetExponent_of_lt {u : Int} {m : Nat} (hu : -1074 ≤ u) (hlt : m < 2 ^ 53) :
    shiftToTargetExponent .binary64 m u .exact = (.ofMantissaAndAccuracy m .exact, u) := by
  have hlog : m.log2 ≤ 52 := by
    rcases Nat.eq_zero_or_pos m with rfl | hm
    · rw [Nat.log2_zero]
      omega
    · have := (Nat.log2_lt hm.ne').mpr hlt
      omega
  have htarget : Format.binary64.targetExponent (totalExponent m u)
      = max ((m.log2 : Int) + 1 + u - 53) (-1074) := rfl
  have hshift : (Format.binary64.targetExponent (totalExponent m u) - u).toNat = 0 := by omega
  rw [shiftToTargetExponent, shiftToExponent, hshift]
  exact Prod.ext rfl (Int.add_zero u)

/-- Where rounding has carried, one shift more makes the mantissa as long as it should be. -/
theorem shiftToTargetExponent_of_carry {u : Int} (hu : -1074 ≤ u) :
    shiftToTargetExponent .binary64 (2 ^ 53) u .exact
      = (.ofMantissaAndAccuracy (2 ^ 52) .exact, u + 1) := by
  have hlog : (2 ^ 53 : Nat).log2 = 53 := Nat.log2_two_pow
  have htarget : Format.binary64.targetExponent (totalExponent (2 ^ 53) u)
      = max (((2 ^ 53 : Nat).log2 : Int) + 1 + u - 53) (-1074) := rfl
  have hshift : (Format.binary64.targetExponent (totalExponent (2 ^ 53) u) - u).toNat = 1 := by
    omega
  rw [shiftToTargetExponent, shiftToExponent, hshift]
  rfl

/-- Rounding is done between two shifts. -/
theorem roundWithAccuracy_of_shifts {s : Sign} {m r r' : Nat} {e u u' : Int} {acc : Accuracy}
    {em : ExtendedMantissa} (hfirst : shiftToTargetExponent .binary64 m e acc = (em, u))
    (hround : em.roundedMantissa = r)
    (hsecond : shiftToTargetExponent .binary64 r u .exact
      = (.ofMantissaAndAccuracy r' .exact, u')) :
    roundWithAccuracy .binary64 s m e acc
      = if h : r' = 0 then .zero s else .finite s r' u' (Nat.pos_of_ne_zero h) := by
  subst hround
  simp only [roundWithAccuracy, hfirst, hsecond]
  rfl

/-- **Rounding what a mantissa and its two bits stand for gives the nearest double.** -/
theorem packed_roundWithAccuracy (negative : Bool) {m : Nat} {e : Int} {acc : Accuracy} {q : ℚ}
    (hq : 0 < q) (h : Represents (.ofMantissaAndAccuracy m acc) (q / 2 ^ e))
    (hexp : e ≤ Format.binary64.targetExponent (totalExponent m e)) :
    packed (roundWithAccuracy .binary64 (signOf negative) m e acc)
      = ofCode negative (codeNear q) := by
  have hmantissa : (ExtendedMantissa.ofMantissaAndAccuracy m acc).mantissa = m := by
    cases acc with
    | exact => rfl
    | inexact o => cases o <;> rfl
  have hlo := h.floor
  have hhi := h.lt
  rw [hmantissa] at hlo hhi
  have htarget := targetExponent_eq hq hlo hhi hexp
  obtain ⟨n, hn⟩ : ∃ n : Nat, unitNear q = e + n := ⟨(unitNear q - e).toNat, by omega⟩
  -- the first shift goes to the unit of the number, and there it is rounded
  have hfirst : shiftToTargetExponent .binary64 m e acc
      = (ExtendedMantissa.ofMantissaAndAccuracy m acc >>> n, unitNear q) := by
    have hshift : (unitNear q - e).toNat = n := by omega
    rw [shiftToTargetExponent, htarget, shiftToExponent, hshift, hn]
  have hround := (h.shiftRight n).roundedMantissa
  rw [div_div, ← zpow_natCast, ← zpow_add₀ two_ne_zero, ← hn] at hround
  obtain ⟨r, hr⟩ : ∃ r, (ExtendedMantissa.ofMantissaAndAccuracy m acc >>> n).roundedMantissa = r :=
    ⟨_, rfl⟩
  rw [hr] at hround
  obtain ⟨hle, hfull⟩ := units_bounds hq hround
  have hunit := unitNear_ge q
  rw [codeNear_eq hq hround]
  rcases hle.lt_or_eq with hlt | rfl
  · rw [roundWithAccuracy_of_shifts hfirst hr (shiftToTargetExponent_of_lt hunit hlt)]
    rcases Nat.eq_zero_or_pos r with rfl | hpos
    · have hzero : unitNear q = -1074 := hfull.resolve_left (by decide)
      rw [dif_pos rfl, hzero]
      exact (ofCode_eq_packed negative (show 0 < infinityCode by decide)).symm
    · rw [dif_neg hpos.ne', packed_units negative hpos hunit hlt hfull]
  · have hcode : (unitNear q + 1074).toNat * binade + 2 ^ 53
        = (unitNear q + 1 + 1074).toNat * binade + 2 ^ 52 := by
      rw [binade_eq]
      omega
    rw [roundWithAccuracy_of_shifts hfirst hr (shiftToTargetExponent_of_carry hunit),
      dif_neg (by decide), packed_units negative _ (by omega) (by decide) (.inl (Nat.le_refl _)),
      hcode]

/-! ## The two operations -/

theorem signOf_mul (a b : Bool) : signOf a * signOf b = signOf (a ^^ b) := by
  cases a <;> cases b <;> rfl

theorem signOf_div (a b : Bool) : signOf a / signOf b = signOf (a ^^ b) := by
  cases a <;> cases b <;> rfl

theorem log2_significand_le (c : Nat) : (significand c).log2 ≤ 52 := by
  rcases Nat.eq_zero_or_pos (significand c) with h | h
  · rw [h, Nat.log2_zero]
    omega
  · have := (Nat.log2_lt h.ne').mpr (significand_bounds c).1
    omega

/-- **A product is rounded once.** -/
theorem mul_eq_ofCode {x y : Float} (hx : x.isFinite = true) (hy : y.isFinite = true) :
    x * y = ofCode (signBit x ^^ signBit y)
      (codeNear (magnitude (code x) * magnitude (code y))) := by
  have hxlo := (unitExponent_bounds (code_lt_of_isFinite hx)).1
  have hylo := (unitExponent_bounds (code_lt_of_isFinite hy)).1
  rw [mul_eq, unpacked_of_isFinite hx, unpacked_of_isFinite hy]
  generalize code x = c at *
  generalize code y = d at *
  rcases Nat.eq_zero_or_pos c with rfl | hc
  · rw [magnitude_zero, zero_mul, codeNear_zero, form_zero, ← packed_zero, ← signOf_mul]
    rcases Nat.eq_zero_or_pos d with rfl | hd
    · rw [form_zero]
      rfl
    · rw [form_pos _ hd]
      rfl
  rcases Nat.eq_zero_or_pos d with rfl | hd
  · rw [magnitude_zero, mul_zero, codeNear_zero, form_zero, form_pos _ hc, ← packed_zero,
      ← signOf_mul]
    rfl
  have hsc := significand_pos hc
  have hsd := significand_pos hd
  have hq : 0 < magnitude c * magnitude d := mul_pos (magnitude_pos hc) (magnitude_pos hd)
  have hexact : magnitude c * magnitude d / 2 ^ (unitExponent c + unitExponent d)
      = (significand c * significand d : Nat) := by
    rw [div_eq_iff (by positivity), zpow_add₀ two_ne_zero, magnitude, magnitude]
    push_cast
    ring
  rw [form_pos _ hc, form_pos _ hd, UnpackedFloat.mul, signOf_mul]
  refine packed_roundWithAccuracy _ hq (by rw [hexact]; exact represents_exact _) ?_
  -- either a full mantissa makes the product long enough, or both units are the smallest
  have htarget : Format.binary64.targetExponent (totalExponent (significand c * significand d)
      (unitExponent c + unitExponent d)) = max (((significand c * significand d).log2 : Int) + 1
        + (unitExponent c + unitExponent d) - 53) (-1074) := rfl
  rw [htarget]
  have hlong : 2 ^ 52 ≤ significand c * significand d
      → 52 ≤ (significand c * significand d).log2 := fun h =>
    (Nat.le_log2 (Nat.mul_pos hsc hsd).ne').mpr h
  rcases (significand_bounds c).2 with hfull | hsmall
  · have := hlong (Nat.le_trans hfull (Nat.le_mul_of_pos_right _ hsd))
    omega
  · rcases (significand_bounds d).2 with hfull | hsmall'
    · have := hlong (Nat.le_trans hfull (Nat.le_mul_of_pos_left _ hsc))
      omega
    · omega

/-- The quotient of the mantissas is long enough, once the first is shifted by as much as the
difference in length asks for. -/
theorem le_log2_quotient {m n k : Nat} (hm : 0 < m) (hn : 0 < n)
    (hk : m.log2 + k = 53 + n.log2) : 52 ≤ (m * 2 ^ k / n).log2 := by
  have hle : 2 ^ 52 ≤ m * 2 ^ k / n := by
    refine (Nat.le_div_iff_mul_le hn).mpr ?_
    calc 2 ^ 52 * n ≤ 2 ^ 52 * 2 ^ (n.log2 + 1) :=
          Nat.mul_le_mul_left _ (Nat.le_of_lt Nat.lt_log2_self)
      _ = 2 ^ m.log2 * 2 ^ k := by
          rw [← Nat.pow_add, ← Nat.pow_add]
          congr 1
          omega
      _ ≤ m * 2 ^ k := Nat.mul_le_mul_right _ (Nat.log2_self_le hm.ne')
  exact (Nat.le_log2 (by omega)).mpr hle

/-- **A quotient is rounded once.** -/
theorem div_eq_ofCode {x y : Float} (hx : x.isFinite = true) (hy : y.isFinite = true)
    (hpos : 0 < code y) : x / y = ofCode (signBit x ^^ signBit y)
      (codeNear (magnitude (code x) / magnitude (code y))) := by
  rw [div_eq, unpacked_of_isFinite hx, unpacked_of_isFinite hy, form_pos _ hpos]
  generalize code x = c at *
  generalize code y = d at *
  rcases Nat.eq_zero_or_pos c with rfl | hc
  · rw [magnitude_zero, zero_div, codeNear_zero, form_zero, ← packed_zero, ← signOf_div]
    rfl
  have hsc := significand_pos hc
  have hsd := significand_pos hpos
  have hlc := log2_significand_le c
  have hq : 0 < magnitude c / magnitude d := div_pos (magnitude_pos hc) (magnitude_pos hpos)
  -- the exponent that the quotient is computed with, and the shift that goes with it
  obtain ⟨t, ht⟩ : ∃ t : Int, t = min (unitExponent c - unitExponent d)
      (Format.binary64.targetExponent (totalExponent (significand c) (unitExponent c)
        - totalExponent (significand d) (unitExponent d))) := ⟨_, rfl⟩
  obtain ⟨k, hk⟩ : ∃ k : Nat, unitExponent c - unitExponent d - t = k :=
    ⟨(unitExponent c - unitExponent d - t).toNat, by omega⟩
  have hexact : magnitude c / magnitude d / 2 ^ t
      = (significand c * 2 ^ k : Nat) / (significand d : Nat) := by
    have hd : (significand d : ℚ) ≠ 0 := by exact_mod_cast hsd.ne'
    have hunit : (2 : ℚ) ^ unitExponent c = 2 ^ unitExponent d * 2 ^ k * 2 ^ t := by
      rw [← zpow_natCast, ← zpow_add₀ two_ne_zero, ← zpow_add₀ two_ne_zero]
      congr 1
      omega
    rw [magnitude, magnitude, hunit]
    push_cast
    field_simp
  have htarget : Format.binary64.targetExponent (totalExponent (significand c) (unitExponent c)
      - totalExponent (significand d) (unitExponent d))
        = max (((significand c).log2 : Int) + 1 + unitExponent c
          - ((significand d).log2 + 1 + unitExponent d) - 53) (-1074) := rfl
  have htarget' : Format.binary64.targetExponent
      (totalExponent (significand c * 2 ^ k / significand d) t)
        = max (((significand c * 2 ^ k / significand d).log2 : Int) + 1 + t - 53) (-1074) := rfl
  have hlong := le_log2_quotient (k := k) hsc hsd
  have hround := packed_roundWithAccuracy (signBit x ^^ signBit y) hq
    (hexact ▸ represents_quotient (significand c * 2 ^ k) hsd) (by omega)
  rw [form_pos _ hc]
  simp only [UnpackedFloat.div, divCore, signOf_div, ← ht, hk, Int.toNat_natCast, Nat.shiftLeft_eq]
  exact hround

end Double

end FactorLabel.Number
